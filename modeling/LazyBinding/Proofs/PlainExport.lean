import LazyBinding.Object.Encoding
import LazyBinding.Proofs.Passing

/-!
# Exports of plain data

Where no class has a hook, objects hold nothing but the data they are made from. An object that is
made from plain data has an export exactly if it passes, although an export looks for objects in all
arrays and maps and stops at the first failure. The export is plain again, so it has a document.
-/
namespace LazyBinding

variable {start s t : Session} {p : Passage} {n : Nat} {v w : Value} {o o' : BoundObject}

/-- An object whose data holds neither objects nor handles. -/
def BoundObject.IsPlain (o : BoundObject) : Prop := ∀ entry ∈ o.data, entry.2.unfit? = none

theorem BoundObject.construct_data (hookless : start.Hookless) (hs : start.Keeps s) (depth : Nat)
    {schema : SchemaId} {cls : ClassPath} {data : Dict String Value}
    (made : (construct depth schema cls data s).2 = .ok o) : o.data = data := by
  obtain ⟨table, -, rfl⟩ := (construct_hookless (hookless schema cls) hs depth).1 made
  rfl

mutual

theorem Value.ofJson_fit : ∀ d : Json, (Value.ofJson d).unfit? = none
  | .null | .bool _ | .float _ | .str _ => rfl
  | .int n => by
    unfold Value.ofJson
    split <;> rfl
  | .arr items => by
    simp only [Value.ofJson, Value.unfit?]
    exact Value.ofJsonItems_fit items
  | .obj members => by
    simp only [Value.ofJson, Value.unfit?]
    exact Value.ofJsonMembers_fit members

theorem Value.ofJsonItems_fit :
    ∀ items : List Json, Value.unfitInItems? (Value.ofJsonItems items) = none
  | [] => rfl
  | item :: rest => by
    simp only [Value.ofJsonItems, Value.unfitInItems?, Value.ofJson_fit item,
      Value.ofJsonItems_fit rest, Option.none_or]

theorem Value.ofJsonMembers_fit :
    ∀ members : List (String × Json), Value.unfitInEntries? (Value.ofJsonMembers members) = none
  | [] => rfl
  | (_, member) :: rest => by
    simp only [Value.ofJsonMembers, Value.unfitInEntries?, Value.ofJson_fit member,
      Value.ofJsonMembers_fit rest, Option.none_or]

end

section

variable {object : BoundObject → Session → Session × Except ObjectError Value}

mutual

theorem Value.exportWith_fit :
    ∀ {v : Value}, v.unfit? = none → ∀ s, v.exportWith object s = (s, .ok v)
  | .null, _, _ | .bool _, _, _ | .int _, _, _ | .float _, _, _ | .str _, _, _ => by
    simp only [Value.exportWith]
  | .array items, h, s => by
    have h : Value.unfitInItems? items = none := h
    simp only [Value.exportWith, Value.exportItems_fit h s]
  | .map entries, h, s => by
    have h : Value.unfitInEntries? entries = none := h
    simp only [Value.exportWith, Value.exportEntries_fit h s]

theorem Value.exportItems_fit : ∀ {items : List Value}, Value.unfitInItems? items = none →
    ∀ s, Value.exportItems object items s = (s, .ok items)
  | [], _, _ => by simp only [Value.exportItems]
  | v :: rest, h, s => by
    obtain ⟨hv, hrest⟩ := Option.or_eq_none_iff.1 h
    simp only [Value.exportItems, Value.exportWith_fit hv, Value.exportItems_fit hrest]

theorem Value.exportEntries_fit : ∀ {entries : List (String × Value)},
    Value.unfitInEntries? entries = none →
    ∀ s, Value.exportEntries object entries s = (s, .ok entries)
  | [], _, _ => by simp only [Value.exportEntries]
  | (_, v) :: rest, h, s => by
    obtain ⟨hv, hrest⟩ := Option.or_eq_none_iff.1 h
    simp only [Value.exportEntries, Value.exportWith_fit hv, Value.exportEntries_fit hrest]

end

end

section

variable {object : BoundObject → Session → Session × Except ObjectError Json}

mutual

theorem Value.toJsonWith_fit :
    ∀ {v : Value}, v.unfit? = none → ∀ s, ∃ d, v.toJsonWith object s = (s, .ok d)
  | .null, _, _ | .bool _, _, _ | .int _, _, _ | .float _, _, _ | .str _, _, _ => by
    simp only [Value.toJsonWith]
    exact ⟨_, rfl⟩
  | .array items, h, s => by
    have h : Value.unfitInItems? items = none := h
    obtain ⟨ds, hds⟩ := Value.itemsToJson_fit h s
    exact ⟨.arr ds, by simp only [Value.toJsonWith, hds]⟩
  | .map entries, h, s => by
    have h : Value.unfitInEntries? entries = none := h
    obtain ⟨ds, hds⟩ := Value.entriesToJson_fit h s
    exact ⟨.obj ds, by simp only [Value.toJsonWith, hds]⟩

theorem Value.itemsToJson_fit : ∀ {items : List Value}, Value.unfitInItems? items = none →
    ∀ s, ∃ ds, Value.itemsToJson object items s = (s, .ok ds)
  | [], _, _ => by
    simp only [Value.itemsToJson]
    exact ⟨_, rfl⟩
  | v :: rest, h, s => by
    obtain ⟨hv, hrest⟩ := Option.or_eq_none_iff.1 h
    obtain ⟨d, hd⟩ := Value.toJsonWith_fit hv s
    obtain ⟨ds, hds⟩ := Value.itemsToJson_fit hrest s
    exact ⟨d :: ds, by simp only [Value.itemsToJson, hd, hds]⟩

theorem Value.entriesToJson_fit : ∀ {entries : List (String × Value)},
    Value.unfitInEntries? entries = none →
    ∀ s, ∃ ds, Value.entriesToJson object entries s = (s, .ok ds)
  | [], _, _ => by
    simp only [Value.entriesToJson]
    exact ⟨_, rfl⟩
  | (key, v) :: rest, h, s => by
    obtain ⟨hv, hrest⟩ := Option.or_eq_none_iff.1 h
    obtain ⟨d, hd⟩ := Value.toJsonWith_fit hv s
    obtain ⟨ds, hds⟩ := Value.entriesToJson_fit hrest s
    exact ⟨(key, d) :: ds, by simp only [Value.entriesToJson, hd, hds]⟩

end

end

/-! ### Values made from plain data -/

/-- A value whose objects stand under a number of array levels and are plain. -/
inductive PlainInside : Nat → Value → Prop where
  | fit {n : Nat} {v : Value} (h : v.unfit? = none) : PlainInside n v
  | object {o : BoundObject} (h : o.IsPlain) : PlainInside 0 (.ofObject o)
  | array {n : Nat} {items : List Value} (h : ∀ v ∈ items, PlainInside n v) :
      PlainInside (n + 1) (.array items)

theorem Value.fit_objectData {data : Dict String Value} (h : v.unfit? = none)
    (source : v.objectData? = some data) : ∀ entry ∈ data, entry.2.unfit? = none := by
  unfold objectData? at source
  split at source
  · cases source
    exact unfitInEntries?_eq_none.1 h
  · cases source
    simp
  · cases source

namespace Passage

theorem Makes.plain (hookless : start.Hookless) (hs : start.Keeps s) (h : p.Makes v s w)
    (fit : v.unfit? = none) : PlainInside 0 w := by
  cases h with
  | kept => exact .fit fit
  | cast typed cast =>
    exact .fit (Value.unfit?_of_isScalar (isScalar_of_cast (toPrimitive_again cast)))
  | built typed outward source made =>
    have hdata := BoundObject.construct_data hookless hs _ made
    exact .object fun entry hentry => Value.fit_objectData fit source entry (hdata ▸ hentry)

theorem convertLevel_object_value (p : Passage) (n : Nat) (o : BoundObject) (s : Session) :
    (p.convertLevel BoundObject.builder n (.ofObject o) s).value = .ofObject o := by
  cases n with
  | succ n => rfl
  | zero =>
    rw [convertLevel_zero (by simp [Value.ofObject])]
    unfold convertBase
    split
    · rfl
    · simp only [toPrimitive_object]
    · split <;> rfl

theorem convertLevel_plain (hookless : start.Hookless) (hs : start.Keeps s) (p : Passage)
    (h : PlainInside n v) : PlainInside n (p.convertLevel BoundObject.builder n v s).value := by
  induction n generalizing v s with
  | zero =>
    cases h with
    | object h =>
      rw [convertLevel_object_value]
      exact .object h
    | fit h =>
      by_cases hv : v = .null
      · subst hv
        exact .fit rfl
      · rw [convertLevel_zero hv]
        exact (p.convertBase_makes v s).plain hookless hs h
  | succ n ih =>
    have all : ∀ items, (∀ v ∈ items, PlainInside n v) →
        PlainInside (n + 1) (p.convertLevel BoundObject.builder (n + 1) (.array items) s).value :=
      fun items h => .array (convertItems_keeps
        (fun v s hs => hs.evolves (p.convertLevel_evolves BoundObject.builder_evolves n v s))
        (fun _ _ hs h => ih hs h) hs h)
    cases h with
    | array h => exact all _ h
    | fit h =>
      cases v with
      | array items => exact all items fun v hv => .fit (Value.unfitInItems?_eq_none.1 h v hv)
      | map entries =>
        cases keys : Value.firstOffKey 0 entries with
        | none =>
          rw [convertLevel_listed keys]
          refine all _ fun v hv => ?_
          obtain ⟨entry, hentry, rfl⟩ := List.mem_map.1 hv
          exact .fit (Value.unfitInEntries?_eq_none.1 h entry hentry)
        | some _ =>
          simp only [convertLevel, keys]
          exact .fit h
      | _ => exact .fit h

end Passage

/-! ### Exports -/

/-- A result that is a success, and then a fit one, exactly if something holds. -/
def SucceedsIff {ε α : Type} (P : Prop) (fit : α → Prop) : Except ε α → Prop
  | .ok a => P ∧ fit a
  | .error _ => ¬P

theorem SucceedsIff.congr {ε α : Type} {P P' : Prop} {fit : α → Prop} {r : Except ε α}
    (h : SucceedsIff P fit r) (hp : P ↔ P') : SucceedsIff P' fit r := by
  rwa [← propext hp]

theorem SucceedsIff.iff {ε α : Type} {P : Prop} {fit : α → Prop} {r : Except ε α}
    (h : SucceedsIff P fit r) : P ↔ ∃ a, r = .ok a := by
  cases r with
  | error e => exact iff_of_false h (by simp)
  | ok a => exact iff_of_true h.1 ⟨a, rfl⟩

/-- An export that plain objects have exactly if they satisfy a predicate, and that is plain. -/
structure Exporter.Decides (start : Session)
    (object : BoundObject → Session → Session × Except ObjectError Value)
    (Q : BoundObject → Prop) : Prop where
  evolves : ∀ o (s : Session), s.Evolves (object o s).1
  decides : ∀ {o : BoundObject} {s}, o.IsPlain → start.Keeps s →
    SucceedsIff (Q o) (fun v => v.unfit? = none) (object o s).2

section

variable {object : BoundObject → Session → Session × Except ObjectError Value}
variable {Q : BoundObject → Prop}

theorem exportItems_decides (he : ∀ o (s : Session), s.Evolves (object o s).1)
    (hi : ∀ {v s}, PlainInside n v → start.Keeps s →
      SucceedsIff (v.Nested Q n) (fun v => v.unfit? = none) (v.exportWith object s).2)
    {items : List Value} (h : ∀ v ∈ items, PlainInside n v) (hs : start.Keeps s) :
    SucceedsIff (∀ v ∈ items, v.Nested Q n) (fun items => Value.unfitInItems? items = none)
      (Value.exportItems object items s).2 := by
  induction items generalizing s with
  | nil => simp [Value.exportItems, SucceedsIff, Value.unfitInItems?]
  | cons v rest ih =>
    have first := hi (h v (by simp)) hs
    have hs' := hs.evolves (Value.exportWith_evolves he v s)
    have others := ih (fun v hv => h v (List.mem_cons_of_mem _ hv)) hs'
    unfold Value.exportItems
    generalize v.exportWith object s = x at first others ⊢
    obtain ⟨s', result⟩ := x
    cases result with
    | error e => exact fun all => first (all v (by simp))
    | ok w =>
      dsimp only at others ⊢
      generalize Value.exportItems object rest s' = y at others ⊢
      obtain ⟨_, result⟩ := y
      cases result with
      | error e => exact fun all => others fun v hv => all v (List.mem_cons_of_mem _ hv)
      | ok items =>
        refine ⟨List.forall_mem_cons.2 ⟨first.1, others.1⟩, ?_⟩
        exact Option.or_eq_none_iff.2 ⟨first.2, others.2⟩

theorem exportWith_decides (ho : Exporter.Decides start object Q) (h : PlainInside n v)
    (hs : start.Keeps s) :
    SucceedsIff (v.Nested Q n) (fun v => v.unfit? = none) (v.exportWith object s).2 := by
  induction n generalizing v s with
  | zero =>
    cases h with
    | fit h =>
      rw [Value.exportWith_fit h]
      exact ⟨Value.nested_of_fit h, h⟩
    | object h =>
      simp only [Value.ofObject, Value.exportWith, Value.Nested]
      exact ho.decides h hs
  | succ n ih =>
    cases h with
    | fit h =>
      rw [Value.exportWith_fit h]
      exact ⟨Value.nested_of_fit h, h⟩
    | @array _ items h =>
      have all := exportItems_decides ho.evolves (fun h hs => ih h hs) h hs
      unfold Value.exportWith
      generalize Value.exportItems object items s = x at all ⊢
      obtain ⟨_, result⟩ := x
      cases result with
      | error e => exact all
      | ok items => exact all

namespace BoundObject

theorem exportFields_decides (ho : Exporter.Decides start object Q) (cls : ClassPath)
    (level : String → Nat) {entries : List (String × Value)}
    (h : ∀ entry ∈ entries, PlainInside (level entry.1) entry.2) (hs : start.Keeps s) :
    SucceedsIff (∀ entry ∈ entries, entry.2.Nested Q (level entry.1))
      (fun entries => Value.unfitInEntries? entries = none)
      (exportFields cls object entries s).2 := by
  induction entries generalizing s with
  | nil => simp [exportFields, SucceedsIff, Value.unfitInEntries?]
  | cons entry rest ih =>
    obtain ⟨name, v⟩ := entry
    have first := exportWith_decides ho (h (name, v) (by simp)) hs
    have hs' := hs.evolves (Value.exportWith_evolves ho.evolves v s)
    have others := ih (fun entry hentry => h entry (List.mem_cons_of_mem _ hentry)) hs'
    unfold exportFields
    generalize v.exportWith object s = x at first others ⊢
    obtain ⟨s', result⟩ := x
    cases result with
    | error e => exact fun all => first (all (name, v) (by simp))
    | ok w =>
      dsimp only at others ⊢
      generalize exportFields cls object rest s' = y at others ⊢
      obtain ⟨_, result⟩ := y
      cases result with
      | error e => exact fun all => others fun entry he => all entry (List.mem_cons_of_mem _ he)
      | ok entries =>
        refine ⟨List.forall_mem_cons.2 ⟨first.1, others.1⟩, ?_⟩
        exact Option.or_eq_none_iff.2 ⟨first.2, others.2⟩

end BoundObject

end

namespace BoundObject

/-- Every stored value has its objects where the type of its field has them, and they are plain. -/
def IsPlainBelow (o : BoundObject) : Prop :=
  ∀ entry ∈ o.data, PlainInside (o.outlet entry.1).type.depth entry.2

theorem analyseField_plain (hookless : start.Hookless) {before field : String} {a : Analysed}
    (hs : start.Keeps a.session) (h : a.object.IsPlainBelow) :
    (analyseField builder none before a field).object.IsPlainBelow := by
  cases hv : a.object.slot? field with
  | none =>
    rw [analyseField_absent hv]
    exact h
  | some v =>
    rw [analyseField_put hv]
    intro entry hentry
    rcases Dict.mem_put hentry with rfl | hentry
    · exact (a.object.outlet field).convertLevel_plain hookless hs
        (h (field, v) (Dict.mem_of_get? hv))
    · exact h entry hentry

theorem analyseFlat_plain (hookless : start.Hookless) (plain : o.IsPlain) (hs : start.Keeps s) :
    (o.analyseFlat builder s).object.IsPlainBelow := by
  have step : ∀ a : Analysed, start.Keeps a.session ∧ a.object.IsPlainBelow →
      ∀ field ∈ Dict.names o.data,
        start.Keeps (analyseField builder none "" a field).session ∧
          (analyseField builder none "" a field).object.IsPlainBelow := fun a ⟨hs, h⟩ field _ =>
    ⟨hs.evolves (analyseField_evolves builder_evolves (by simp) "" a field),
      analyseField_plain hookless hs h⟩
  exact (List.foldlRecOn _ _ ⟨hs, fun entry h => .fit (plain entry h)⟩ step).2

/-- Where an analysis of the object alone finds nothing bad, the object passes exactly if what it
holds then does. -/
theorem nested_iff_passes (hstart : start.Keeps start) (plain : o.IsPlain) (hs : start.Keeps s)
    (clean : (o.analyseFlat builder s).report.hasBad = false) (depth : Nat) :
    (∀ entry ∈ (o.analyseFlat builder s).object.data, entry.2.Nested (Passes start depth)
      ((o.analyseFlat builder s).object.outlet entry.1).type.depth) ↔
      o.Passes start (depth + 1) := by
  have converts := (analyseFlat_good hstart o hs).1 clean
  have slot := o.analyseFlat_slot? hstart hs
  have entries := o.analyseFlat_entry s
  have changes := o.analyseFlat_changesOnly s
  generalize (o.analyseFlat builder s).object = found at slot entries changes ⊢
  constructor
  · intro h field v hv
    have stored := slot field
    rw [hv] at stored
    have nested := h _ (Dict.mem_of_get? stored)
    rw [changes.revises.outlet] at nested
    exact ⟨(converts field v hv).1, nested⟩
  · intro h entry hentry
    rw [changes.revises.outlet]
    -- A second entry of a key is never read: it still holds the plain data that it was made from.
    rcases entries entry hentry with stored | hmem
    · rw [slot] at stored
      obtain ⟨v, hv, hvalue⟩ := Option.map_eq_some_iff.1 stored
      have nested := (h entry.1 v hv).2
      rwa [hvalue] at nested
    · exact Value.nested_of_fit (plain entry hmem)

theorem Passes.clean (hstart : start.Keeps start) (hs : start.Keeps s) {depth : Nat}
    (h : o.Passes start (depth + 1)) : (o.analyseFlat builder s).report.hasBad = false :=
  (analyseFlat_good hstart o hs).2 fun field v hv =>
    ⟨(h field v hv).1, Value.nested_of_forall (fun _ => trivial) _ _⟩

/-- A plain object has an export exactly if it passes, and the export is plain again. -/
theorem exportWith_decides (hookless : start.Hookless) (hstart : start.Keeps start) (depth : Nat) :
    Exporter.Decides start (exportWith builder depth) (Passes start depth) := by
  induction depth with
  | zero =>
    refine ⟨BoundObject.exportWith_evolves builder_evolves 0, fun {o s} _ _ => ?_⟩
    simp [exportWith, SucceedsIff, Passes]
  | succ depth ih =>
    refine ⟨BoundObject.exportWith_evolves builder_evolves _, fun {o s} plain hs => ?_⟩
    unfold exportWith
    dsimp only
    split
    · next bad =>
      intro passes
      rw [passes.clean hstart hs] at bad
      cases bad
    · next clean =>
      have clean : (o.analyseFlat builder s).report.hasBad = false := Bool.eq_false_iff.2 clean
      have hfound := hs.evolves (o.analyseFlat_evolves builder_evolves s)
      -- The fields are settled by now, so exporting them asks the same of the objects below as
      -- passing does, although it looks into values of every type.
      have below : (o.analyseFlat builder s).object.IsPlainBelow :=
        analyseFlat_plain hookless plain hs
      have fields := (exportFields_decides ih o.cls
        (fun name => ((o.analyseFlat builder s).object.outlet name).type.depth) below hfound).congr
        (nested_iff_passes hstart plain hs clean depth)
      generalize exportFields o.cls _ _ (o.analyseFlat builder s).session = x at fields ⊢
      obtain ⟨_, result⟩ := x
      cases result with
      | error e => exact fields
      | ok entries => exact fields

end BoundObject

end LazyBinding
