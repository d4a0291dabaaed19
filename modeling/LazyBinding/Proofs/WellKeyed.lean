import LazyBinding.Proofs.Binding

/-!
# No key comes twice

The dictionaries of a program never hold a key twice: data that is read, built, converted, written
or analysed stays in normal form at every depth, whatever hooks do on the way.
-/
namespace LazyBinding

mutual

/-- No dictionary inside the value has a key twice. -/
def Value.isWellKeyed : Value → Bool
  | .array items => Value.areWellKeyed items
  | .map entries => Dict.isWellKeyed entries
  | .object _ _ _ data => Dict.isWellKeyed data
  | _ => true

def Value.areWellKeyed : List Value → Bool
  | [] => true
  | v :: rest => v.isWellKeyed && Value.areWellKeyed rest

/-- Neither the dictionary nor one inside it has a key twice. -/
def Dict.isWellKeyed : List (String × Value) → Bool
  | [] => true
  | (key, v) :: rest => !Dict.has rest key && v.isWellKeyed && Dict.isWellKeyed rest

end

def BoundObject.IsWellKeyed (o : BoundObject) : Prop := Dict.isWellKeyed o.data = true

variable {build : Builder} {s : Session} {o : BoundObject} {v w : Value}

theorem Value.areWellKeyed_iff {items : List Value} :
    Value.areWellKeyed items = true ↔ ∀ v ∈ items, v.isWellKeyed = true := by
  induction items with
  | nil => simp [Value.areWellKeyed]
  | cons v rest ih => simp [Value.areWellKeyed, ih]

namespace Dict

variable {d : Dict String Value} {key : String}

theorem isWellKeyed_iff :
    isWellKeyed d = true ↔ Distinct d ∧ ∀ entry ∈ d, entry.2.isWellKeyed = true := by
  induction d with
  | nil => simp [isWellKeyed, distinct_nil]
  | cons entry rest ih =>
    obtain ⟨key, v⟩ := entry
    have fresh : (!has rest key) = true ↔ key ∉ keys rest := by
      rw [Bool.not_eq_true', ← Bool.not_eq_true, has_iff]
    rw [isWellKeyed, Bool.and_eq_true, Bool.and_eq_true, ih, fresh, distinct_cons,
      List.forall_mem_cons]
    constructor
    · rintro ⟨⟨fresh, first⟩, distinct, others⟩
      exact ⟨⟨fresh, distinct⟩, first, others⟩
    · rintro ⟨⟨fresh, distinct⟩, first, others⟩
      exact ⟨⟨fresh, first⟩, distinct, others⟩

theorem isWellKeyed_put (h : isWellKeyed d = true) (hv : v.isWellKeyed = true) :
    isWellKeyed (put d key v) = true := by
  obtain ⟨distinct, inner⟩ := isWellKeyed_iff.1 h
  refine isWellKeyed_iff.2 ⟨distinct_put key v distinct, fun entry hentry => ?_⟩
  rcases mem_put hentry with rfl | hentry
  · exact hv
  · exact inner entry hentry

theorem isWellKeyed_ofList {entries : List (String × Value)}
    (h : ∀ entry ∈ entries, entry.2.isWellKeyed = true) : isWellKeyed (ofList entries) = true :=
  isWellKeyed_iff.2 ⟨distinct_ofList entries, fun entry hentry => h entry (mem_ofList hentry)⟩

theorem isWellKeyed_get? (h : isWellKeyed d = true) (hv : get? d key = some v) :
    v.isWellKeyed = true :=
  (isWellKeyed_iff.1 h).2 (key, v) (mem_of_get? hv)

end Dict

/-! ### Documents -/

theorem Value.keys_ofJsonMembers (members : List (String × Json)) :
    Dict.keys (Value.ofJsonMembers members) = Dict.keys members := by
  induction members with
  | nil => rfl
  | cons member rest ih => exact congrArg (member.1 :: ·) ih

theorem Value.mem_ofJsonMembers {members : List (String × Json)} {entry : String × Value}
    (h : entry ∈ Value.ofJsonMembers members) :
    ∃ member ∈ members, entry.2 = Value.ofJson member.2 := by
  induction members with
  | nil => cases h
  | cons member rest ih =>
    rcases List.mem_cons.1 h with rfl | later
    · exact ⟨member, List.mem_cons_self, rfl⟩
    · obtain ⟨other, hother, hv⟩ := ih later
      exact ⟨other, List.mem_cons_of_mem _ hother, hv⟩

theorem Value.areWellKeyed_ofJsonItems {items : List Json}
    (h : ∀ d ∈ items, (Value.ofJson d).isWellKeyed = true) :
    Value.areWellKeyed (Value.ofJsonItems items) = true := by
  induction items with
  | nil => rfl
  | cons d rest ih =>
    rw [Value.ofJsonItems, Value.areWellKeyed, Bool.and_eq_true]
    exact ⟨h d List.mem_cons_self, ih fun d hd => h d (List.mem_cons_of_mem _ hd)⟩

theorem Value.isWellKeyed_ofJsonMembers {members : List (String × Json)}
    (distinct : Dict.Distinct members)
    (h : ∀ member ∈ members, (Value.ofJson member.2).isWellKeyed = true) :
    Dict.isWellKeyed (Value.ofJsonMembers members) = true := by
  rw [Dict.isWellKeyed_iff, Dict.Distinct, Value.keys_ofJsonMembers]
  refine ⟨distinct, fun entry hentry => ?_⟩
  obtain ⟨member, hmember, hv⟩ := Value.mem_ofJsonMembers hentry
  rw [hv]
  exact h member hmember

namespace Json

/-- A read result whose value, if there is one, has no key twice. -/
def ReadsWellKeyed (r : Except Fault (Json × Cursor)) : Prop :=
  ∀ d c, r = .ok (d, c) → (Value.ofJson d).isWellKeyed = true

theorem readNumber_wellKeyed [DoubleReader] (negative : Bool) (c : Cursor) :
    ReadsWellKeyed (readNumber negative c) := by
  intro d c' h
  simp only [readNumber, bind, Except.bind, pure, Except.pure] at h
  split at h
  · cases h
  · split at h
    · cases h
    · split at h
      · cases h
      · split at h
        · cases h
          simp only [Value.ofJson]
          split <;> rfl
        · split at h
          · cases h
            rfl
          · cases h

theorem map_wellKeyed {α : Type} {r : Except Fault α} {f : α → Json × Cursor}
    (h : ∀ a, r = .ok a → (Value.ofJson (f a).1).isWellKeyed = true) :
    ReadsWellKeyed (r.map f) := by
  intro d c hread
  cases r with
  | error e => cases hread
  | ok a =>
    have ha : f a = (d, c) := Except.ok.inj hread
    have := h a rfl
    rwa [ha] at this

theorem readScalar_wellKeyed [DoubleReader] (byte : UInt8) (c : Cursor) :
    ReadsWellKeyed (readScalar byte c) := by
  unfold readScalar
  split
  · exact map_wellKeyed fun _ _ => rfl
  · split
    · exact map_wellKeyed fun _ _ => rfl
    · split
      · exact map_wellKeyed fun _ _ => rfl
      · split
        · exact readNumber_wellKeyed _ _
        · split
          · exact readNumber_wellKeyed _ _
          · split
            · exact map_wellKeyed fun _ _ => rfl
            · intro d c' h
              cases h

theorem readItems_wellKeyed {item : Cursor → Except Fault (Json × Cursor)}
    (hi : ∀ c, ReadsWellKeyed (item c)) (steps index : Nat) {c c' : Cursor} {items : List Json}
    (h : readItems item steps index c = .ok (items, c')) :
    ∀ d ∈ items, (Value.ofJson d).isWellKeyed = true := by
  induction steps generalizing index c items with
  | zero => cases h
  | succ steps ih =>
    unfold readItems at h
    split at h
    · cases h
    · cases h
      simp
    · split at h
      · cases h
      · next first =>
        split at h
        · cases h
        · next others =>
          cases h
          exact List.forall_mem_cons.2 ⟨hi _ _ _ first, ih _ others⟩

theorem readMember_wellKeyed {value : Cursor → Except Fault (Json × Cursor)}
    (hv : ∀ c, ReadsWellKeyed (value c)) (key : String) (c : Cursor) :
    ReadsWellKeyed (readMember value key c) := by
  intro d c' h
  unfold readMember at h
  split at h
  · cases h
  · split at h
    · cases h
    · next read =>
      cases h
      exact hv _ _ _ read

theorem readMembers_wellKeyed {value : Cursor → Except Fault (Json × Cursor)}
    (hv : ∀ c, ReadsWellKeyed (value c)) (steps : Nat) (isFirst : Bool) {c c' : Cursor}
    {members : List (String × Json)}
    (h : readMembers value steps isFirst c = .ok (members, c')) :
    ∀ member ∈ members, (Value.ofJson member.2).isWellKeyed = true := by
  induction steps generalizing isFirst c members with
  | zero => cases h
  | succ steps ih =>
    unfold readMembers at h
    split at h
    · cases h
    · cases h
      simp
    · split at h
      · cases h
      · next first =>
        split at h
        · cases h
        · next others =>
          cases h
          exact List.forall_mem_cons.2 ⟨readMember_wellKeyed hv _ _ _ _ first, ih _ others⟩

theorem readValue_wellKeyed [DoubleReader] (depth : Nat) (c : Cursor) :
    ReadsWellKeyed (readValue depth c) := by
  induction depth generalizing c with
  | zero =>
    unfold readValue
    dsimp only
    split
    · intro d c' h
      cases h
    · split
      · intro d c' h
        cases h
      · exact readScalar_wellKeyed _ _
  | succ depth ih =>
    unfold readValue
    dsimp only
    split
    · intro d c' h
      cases h
    · split
      · split
        · refine map_wellKeyed fun read h => ?_
          exact Value.areWellKeyed_ofJsonItems (readItems_wellKeyed ih _ _ h)
        · refine map_wellKeyed fun read h => ?_
          exact Value.isWellKeyed_ofJsonMembers (Dict.distinct_ofList _) fun member hmember =>
            readMembers_wellKeyed ih _ _ h member (Dict.mem_ofList hmember)
      · exact readScalar_wellKeyed _ _

end Json

theorem Value.decode_wellKeyed [Json.DoubleReader] {c : Json.Cursor} (h : Value.decode c = .ok v) :
    v.isWellKeyed = true := by
  unfold Value.decode Json.decodeFirst at h
  split at h
  · next document read =>
    cases h
    cases hread : Json.readValue Json.maxDepth c with
    | error f =>
      rw [hread] at read
      cases read
    | ok found =>
      rw [hread] at read
      cases read
      exact Json.readValue_wellKeyed _ c _ _ hread
  · cases h

/-! ### Conversions -/

/-- Objects that are made of data without a repeated key hold no key twice. -/
def Builder.KeepsKeys (build : Builder) : Prop :=
  ∀ schema cls {data} (s : Session) {o}, Dict.isWellKeyed data = true →
    (build schema cls data s).2 = .ok o → o.IsWellKeyed

namespace Passage

variable {p : Passage}

theorem construct_wellKeyed (hb : build.KeepsKeys) (p : Passage) (cls : ClassPath)
    {data : Dict String Value} (hv : v.isWellKeyed = true) (hdata : Dict.isWellKeyed data = true)
    (s : Session) : (p.construct build cls v data s).value.isWellKeyed = true := by
  unfold construct
  split
  · next made => exact hb p.schema cls s hdata (congrArg Prod.snd made)
  · exact hv

theorem toPrimitive_wellKeyed (p : Passage) (kind : Primitive) (h : v.isWellKeyed = true) :
    (p.toPrimitive kind v).1.isWellKeyed = true := by
  unfold toPrimitive
  split
  case h_5 =>
    split
    · exact h
    · split
      · next cast =>
        unfold Value.cast? at cast
        split at cast
        · cases kind <;> cases cast <;> rfl
        · cases cast
      · exact h
  all_goals exact h

theorem convertBase_wellKeyed (hb : build.KeepsKeys) (p : Passage) (h : v.isWellKeyed = true)
    (s : Session) : (p.convertBase build v s).value.isWellKeyed = true := by
  unfold convertBase
  split
  · exact h
  · exact p.toPrimitive_wellKeyed _ h
  · split
    · unfold materialize
      split
      · exact h
      · exact p.construct_wellKeyed hb _ h h s
      · exact p.construct_wellKeyed hb _ h rfl s
      · exact h
      · exact h
    · exact h

theorem convertLevel_wellKeyed (hb : build.KeepsKeys) (p : Passage) (remaining : Nat)
    (h : v.isWellKeyed = true) (s : Session) :
    (p.convertLevel build remaining v s).value.isWellKeyed = true := by
  induction remaining generalizing v s with
  | zero =>
    cases v with
    | null => rfl
    | _ => exact p.convertBase_wellKeyed hb h s
  | succ remaining ih =>
    have all : ∀ items : List Value, (∀ v ∈ items, v.isWellKeyed = true) →
        Value.areWellKeyed
          (convertItems (convertLevel build p remaining) items s).items = true :=
      fun items h => Value.areWellKeyed_iff.2
        (convertItems_keeps (P := fun _ => True) (fun _ _ _ => trivial) (fun _ s _ hv => ih hv s)
          trivial h)
    cases v with
    | array items => exact all items (Value.areWellKeyed_iff.1 h)
    | map entries =>
      simp only [convertLevel]
      split
      · exact h
      · refine all _ fun v hv => ?_
        obtain ⟨entry, hentry, rfl⟩ := List.mem_map.1 hv
        exact (Dict.isWellKeyed_iff.1 h).2 entry hentry
    | _ => exact h

end Passage

/-! ### What hooks hand in -/

section

variable {table : SchemaId → ClassPath → Except SchemaError FieldTable}

mutual

theorem Value.rebind_wellKeyed : ∀ (v : Value) {w}, v.rebind table = .ok w → w.isWellKeyed = true
  | .null, _, h | .bool _, _, h | .int _, _, h | .float _, _, h | .str _, _, h
  | .handle _, _, h => by
    unfold Value.rebind at h
    cases h
    rfl
  | .array items, _, h => by
    unfold Value.rebind at h
    cases hitems : Value.rebindItems table items with
    | error e =>
      rw [hitems] at h
      cases h
    | ok items' =>
      rw [hitems] at h
      cases h
      exact Value.areWellKeyed_iff.2 (Value.rebindItems_wellKeyed items hitems)
  | .map entries, _, h => by
    unfold Value.rebind at h
    cases hentries : Value.rebindEntries table entries with
    | error e =>
      rw [hentries] at h
      cases h
    | ok entries' =>
      rw [hentries] at h
      cases h
      exact Dict.isWellKeyed_ofList (Value.rebindEntries_wellKeyed entries hentries)
  | .object schema cls _ data, _, h => by
    unfold Value.rebind at h
    split at h
    · cases h
    · cases h
    · next hdata =>
      cases h
      exact Dict.isWellKeyed_ofList (Value.rebindEntries_wellKeyed data hdata)

theorem Value.rebindItems_wellKeyed :
    ∀ (items : List Value) {ws}, Value.rebindItems table items = .ok ws →
      ∀ w ∈ ws, w.isWellKeyed = true
  | [], _, h => by
    unfold Value.rebindItems at h
    cases h
    simp
  | v :: rest, _, h => by
    unfold Value.rebindItems at h
    split at h
    · cases h
    · cases h
    · next first others =>
      cases h
      exact List.forall_mem_cons.2
        ⟨Value.rebind_wellKeyed v first, Value.rebindItems_wellKeyed rest others⟩

theorem Value.rebindEntries_wellKeyed :
    ∀ (entries : List (String × Value)) {data}, Value.rebindEntries table entries = .ok data →
      ∀ entry ∈ data, entry.2.isWellKeyed = true
  | [], _, h => by
    unfold Value.rebindEntries at h
    cases h
    simp
  | (key, v) :: rest, _, h => by
    unfold Value.rebindEntries at h
    split at h
    · cases h
    · cases h
    · next first others =>
      cases h
      exact List.forall_mem_cons.2
        ⟨Value.rebind_wellKeyed v first, Value.rebindEntries_wellKeyed rest others⟩

end

end

/-! ### Objects -/

namespace BoundObject

variable {field : String} {type : FieldType}

theorem IsWellKeyed.put (h : o.IsWellKeyed) (hv : v.isWellKeyed = true) :
    (o.put field v).IsWellKeyed := Dict.isWellKeyed_put h hv

theorem IsWellKeyed.slot (h : o.IsWellKeyed) (hv : o.slot? field = some v) :
    v.isWellKeyed = true := Dict.isWellKeyed_get? h hv

theorem materializeSlot_wellKeyed (hb : build.KeepsKeys) (h : o.IsWellKeyed) (field : String)
    (type : FieldType) (hv : v.isWellKeyed = true) (s : Session) :
    (o.materializeSlot build field type v s).object.IsWellKeyed ∧
      ∀ w, (o.materializeSlot build field type v s).result = .ok w → w.isWellKeyed = true := by
  have converted : ((o.passage field type .materialize).convert build v
      s).value.isWellKeyed = true := Passage.convertLevel_wellKeyed hb _ _ hv s
  unfold materializeSlot
  dsimp only
  split
  · refine ⟨h.put converted, fun w found => ?_⟩
    cases found
  · refine ⟨h.put converted, fun w found => ?_⟩
    cases found
    exact converted

end BoundObject

/-- Analysing an object keeps its keys apart. -/
def Analyser.KeepsKeys (inner : Analyser) : Prop :=
  ∀ {o : BoundObject} path report (s : Session), o.IsWellKeyed →
    (inner o path report s).object.IsWellKeyed

theorem analyseItems_forall {P : Value → Prop}
    {item : String → Value → Report → Session → AnalysedValue}
    (hi : ∀ path v report s, P v → P (item path v report s).value) (path : String) (index : Nat)
    {items : List Value} (report : Report) (s : Session) (h : ∀ v ∈ items, P v) :
    ∀ v ∈ (analyseItems item path index items report s).items, P v := by
  induction items generalizing index report s with
  | nil => simp [analyseItems]
  | cons v rest ih =>
    obtain ⟨first, others⟩ := List.forall_mem_cons.1 h
    exact List.forall_mem_cons.2 ⟨hi _ v report s first, ih _ _ _ others⟩

theorem analyseNested_wellKeyed {inner : Analyser} (hi : inner.KeepsKeys) (depth : Nat)
    (path : String) (report : Report) (s : Session) (h : v.isWellKeyed = true) :
    (analyseNested inner depth path v report s).value.isWellKeyed = true := by
  induction depth generalizing path v report s with
  | zero =>
    cases v with
    | object schema cls table data => exact hi (o := ⟨schema, cls, table, data⟩) path report s h
    | _ => exact h
  | succ depth ih =>
    cases v with
    | array items =>
      exact Value.areWellKeyed_iff.2 (analyseItems_forall (fun path _ report s => ih path report s)
        path 0 report s (Value.areWellKeyed_iff.1 h))
    | _ => exact h

namespace BoundObject

theorem analyseField_wellKeyed (hb : build.KeepsKeys) {inner : Option Analyser}
    (hi : ∀ analyser, inner = some analyser → analyser.KeepsKeys) (before field : String)
    {a : Analysed} (h : a.object.IsWellKeyed) :
    (analyseField build inner before a field).object.IsWellKeyed := by
  unfold analyseField
  split
  · exact h
  · next v hv =>
    have read := materializeSlot_wellKeyed hb h field
      ((Dict.get? a.object.table field).getD .untyped) (h.slot hv) a.session
    dsimp only
    split
    · exact read.1
    · next w found =>
      split
      · next analyser =>
        split
        · exact read.1.put (analyseNested_wellKeyed (hi analyser rfl) _ _ _ _ (read.2 w found))
        · exact read.1
      · exact read.1

theorem analyseFields_wellKeyed (hb : build.KeepsKeys) {inner : Option Analyser}
    (hi : ∀ analyser, inner = some analyser → analyser.KeepsKeys) (before : String)
    (fields : List String) {a : Analysed} (h : a.object.IsWellKeyed) :
    (fields.foldl (analyseField build inner before) a).object.IsWellKeyed := by
  induction fields generalizing a with
  | nil => exact h
  | cons field rest ih => exact ih (analyseField_wellKeyed hb hi before field h)

theorem analyseDeep_wellKeyed (hb : build.KeepsKeys) (depth : Nat) :
    Analyser.KeepsKeys (analyseDeep build depth) := by
  induction depth with
  | zero =>
    intro o path report s h
    exact h
  | succ depth ih =>
    intro o path report s h
    have deep : ∀ analyser, some (analyseDeep build depth) = some analyser →
        analyser.KeepsKeys := by
      rintro analyser ⟨⟩
      exact ih
    exact analyseFields_wellKeyed hb deep path _ (a := ⟨s, o, report, true⟩) h

theorem rebind_wellKeyed {left : BoundObject} (h : o.rebind s = .ok left) : left.IsWellKeyed := by
  obtain ⟨table, data, -, hdata, rfl⟩ := rebind_eq_ok h
  exact Dict.isWellKeyed_ofList (Value.rebindEntries_wellKeyed o.data hdata)

end BoundObject

theorem Procedure.run_wellKeyed {hooks : HookRunner} (depth : Nat) (ho : o.IsWellKeyed)
    (rest : Procedure) (s : Session) : (rest.run hooks depth o s).object.IsWellKeyed := by
  induction rest generalizing s with
  | finish left stop =>
    apply BoundObject.taking_object ho
    intro left hleft
    exact BoundObject.rebind_wellKeyed hleft
  | make schema cls data next ih =>
    apply BoundObject.taking_object ho
    intro data _
    exact ih _ _
  | call target request next ih =>
    apply BoundObject.taking_object ho
    intro target _
    exact ih _ _ _
  | table schema cls next ih => exact ih _ _
  | clear schema next ih => exact ih _

namespace BoundObject

theorem runHook_wellKeyed (depth : Nat) (h : o.IsWellKeyed) (s : Session) :
    (runHook depth o s).object.IsWellKeyed := by
  rcases hhook : (s.registry o.schema).hook? o.cls with _ | hook
  · rw [runHook_hookless hhook]
    exact h
  · cases depth with
    | zero =>
      rw [runHook_zero hhook]
      exact h
    | succ depth =>
      rw [runHook_succ hhook]
      exact (hook o).run_wellKeyed depth h s

/-- No key comes twice in an object that is made, whatever its hook does. -/
theorem construct_wellKeyed (depth : Nat) : Builder.KeepsKeys (construct depth) := by
  intro schema cls data s o hdata made
  obtain ⟨table, -, rfl, -⟩ := construct_eq_ok made
  exact runHook_wellKeyed (o := ⟨schema, cls, table, data⟩) depth hdata _

theorem builder_wellKeyed : Builder.KeepsKeys builder := construct_wellKeyed levelLimit

end BoundObject

end LazyBinding
