import LazyBinding.Proofs.PlainExport

/-!
# What an export is

An export of a value is the value with every object in it replaced by an export of its own; all else
stays in its place. An object has an export if all its fields convert, and then it is the map of the
exports of what they convert to.
-/
namespace LazyBinding

variable {start s t : Session} {n : Nat} {v w : Value} {o : BoundObject}
variable {E E' : BoundObject → Value → Prop}

theorem forall_of_forall₂ {α β : Type} {R : α → β → Prop} {P : β → Prop} {l : List α} {l' : List β}
    (h : List.Forall₂ R l l') (hp : ∀ a ∈ l, ∀ b, R a b → P b) : ∀ b ∈ l', P b := by
  induction h with
  | nil => simp
  | cons first _ ih =>
    obtain ⟨hfirst, hothers⟩ := List.forall_mem_cons.1 hp
    exact List.forall_mem_cons.2 ⟨hfirst _ first, ih hothers⟩

/-- The second value is the first one with every object in it replaced according to `E`. -/
inductive Value.ExportsTo (E : BoundObject → Value → Prop) : Value → Value → Prop where
  | object {x : BoundObject} {w : Value} (exported : E x w) : ExportsTo E (.ofObject x) w
  | leaf {v : Value} (flat : v.isSequence = false) (unbound : v.asObject? = none) :
      ExportsTo E v v
  | noItem : ExportsTo E (.array []) (.array [])
  | item {v w : Value} {rest rest' : List Value} (first : ExportsTo E v w)
      (others : ExportsTo E (.array rest) (.array rest')) :
      ExportsTo E (.array (v :: rest)) (.array (w :: rest'))
  | noEntry : ExportsTo E (.map []) (.map [])
  | entry {key : String} {v w : Value} {rest rest' : List (String × Value)}
      (first : ExportsTo E v w) (others : ExportsTo E (.map rest) (.map rest')) :
      ExportsTo E (.map ((key, v) :: rest)) (.map ((key, w) :: rest'))

/-- Two dictionaries with the same keys and related values. -/
def Dict.Related {κ α β : Type} (R : κ → α → β → Prop) : Dict κ α → Dict κ β → Prop :=
  List.Forall₂ fun entry entry' => entry.1 = entry'.1 ∧ R entry.1 entry.2 entry'.2

namespace Dict

variable {κ α β : Type} {R : κ → α → β → Prop} {d : Dict κ α} {d' : Dict κ β} {k : κ} {a : α}

@[simp]
theorem related_nil_iff : Dict.Related R [] d' ↔ d' = [] := List.forall₂_nil_left_iff

theorem related_cons_iff :
    Dict.Related R ((k, a) :: d) d' ↔ ∃ b rest, R k a b ∧ Dict.Related R d rest ∧
      d' = (k, b) :: rest := by
  unfold Dict.Related
  rw [List.forall₂_cons_left_iff]
  constructor
  · rintro ⟨⟨_, b⟩, rest, ⟨rfl, first⟩, others, rfl⟩
    exact ⟨b, rest, first, others, rfl⟩
  · rintro ⟨b, rest, first, others, rfl⟩
    exact ⟨(k, b), rest, ⟨rfl, first⟩, others, rfl⟩

namespace Related

theorem keys (h : Dict.Related R d d') : Dict.keys d' = Dict.keys d := by
  induction h with
  | nil => rfl
  | cons first _ ih => exact congrArg₂ List.cons first.1.symm ih

theorem get? [DecidableEq κ] (h : Dict.Related R d d')
    (stored : Dict.get? d k = some a) : ∃ b, Dict.get? d' k = some b ∧ R k a b := by
  induction h with
  | nil => cases stored
  | @cons entry entry' _ _ first _ ih =>
    obtain ⟨k', a'⟩ := entry
    obtain ⟨_, b⟩ := entry'
    obtain ⟨rfl, related⟩ := first
    by_cases hk : k' = k
    · subst hk
      obtain rfl : a' = a := by simpa [Dict.get?] using stored
      exact ⟨b, if_pos rfl, related⟩
    · rw [Dict.get?, if_neg hk] at stored ⊢
      exact ih stored

theorem imp {R' : κ → α → β → Prop} (h : Dict.Related R d d') (hr : ∀ k a b, R k a b → R' k a b) :
    Dict.Related R' d d' :=
  List.Forall₂.imp (fun _ _ related => ⟨related.1, hr _ _ _ related.2⟩) h

end Related

end Dict

/-- The entries of a dictionary with their values exported. -/
def EntriesExport (E : BoundObject → Value → Prop) :
    List (String × Value) → List (String × Value) → Prop :=
  Dict.Related fun _ => Value.ExportsTo E

theorem entriesExport_nil_iff {ws : List (String × Value)} : EntriesExport E [] ws ↔ ws = [] :=
  Dict.related_nil_iff

theorem entriesExport_cons_iff {key : String} {rest ws : List (String × Value)} :
    EntriesExport E ((key, v) :: rest) ws ↔
      ∃ w ws', v.ExportsTo E w ∧ EntriesExport E rest ws' ∧ ws = (key, w) :: ws' :=
  Dict.related_cons_iff

namespace Value.ExportsTo

theorem mono (h : v.ExportsTo E w) (he : ∀ x u, E x u → E' x u) : v.ExportsTo E' w := by
  induction h with
  | object exported => exact .object (he _ _ exported)
  | leaf flat unbound => exact .leaf flat unbound
  | noItem => exact .noItem
  | item _ _ ih ih' => exact .item ih ih'
  | noEntry => exact .noEntry
  | entry _ _ ih ih' => exact .entry ih ih'

theorem of_object (h : (Value.ofObject o).ExportsTo E w) : E o w := by
  generalize hv : Value.ofObject o = v at h
  cases h with
  | @object x _ exported =>
    obtain rfl : o = x := Value.ofObject_inj hv
    exact exported
  | leaf _ unbound =>
    subst hv
    cases unbound
  | _ => cases hv

theorem array_iff {items : List Value} :
    (Value.array items).ExportsTo E w ↔
      ∃ ws, w = .array ws ∧ List.Forall₂ (Value.ExportsTo E) items ws := by
  induction items generalizing w with
  | nil =>
    constructor
    · intro h
      cases h with
      | noItem => exact ⟨[], rfl, .nil⟩
      | leaf flat => cases flat
    · rintro ⟨_, rfl, ⟨⟩⟩
      exact .noItem
  | cons v rest ih =>
    constructor
    · intro h
      cases h with
      | item first others =>
        obtain ⟨ws, hws, all⟩ := ih.1 others
        cases hws
        exact ⟨_, rfl, .cons first all⟩
      | leaf flat => cases flat
    · rintro ⟨_, rfl, h⟩
      cases h with
      | cons first others => exact .item first (ih.2 ⟨_, rfl, others⟩)

theorem map_iff {entries : List (String × Value)} :
    (Value.map entries).ExportsTo E w ↔ ∃ ws, w = .map ws ∧ EntriesExport E entries ws := by
  induction entries generalizing w with
  | nil =>
    constructor
    · intro h
      cases h with
      | noEntry => exact ⟨[], rfl, .nil⟩
      | leaf flat => cases flat
    · rintro ⟨_, rfl, ⟨⟩⟩
      exact .noEntry
  | cons entry rest ih =>
    obtain ⟨key, v⟩ := entry
    constructor
    · intro h
      cases h with
      | entry first others =>
        obtain ⟨ws, hws, all⟩ := ih.1 others
        cases hws
        exact ⟨_, rfl, .cons ⟨rfl, first⟩ all⟩
      | leaf flat => cases flat
    · rintro ⟨_, rfl, h⟩
      obtain ⟨w, ws, first, others, rfl⟩ := entriesExport_cons_iff.1 h
      exact .entry first (ih.2 ⟨ws, rfl, others⟩)

theorem leaf_iff (flat : v.isSequence = false) (unbound : v.asObject? = none) :
    v.ExportsTo E w ↔ w = v := by
  constructor
  · intro h
    cases h with
    | leaf => rfl
    | object => cases unbound
    | _ => cases flat
  · rintro rfl
    exact .leaf flat unbound

theorem of_fit (h : v.ExportsTo E w) (fit : v.unfit? = none) : w = v := by
  induction h with
  | object => cases fit
  | leaf | noItem | noEntry => rfl
  | item _ _ ih ih' =>
    obtain ⟨first, others⟩ := Option.or_eq_none_iff.1 fit
    obtain rfl := ih first
    cases ih' others
    rfl
  | entry _ _ ih ih' =>
    obtain ⟨first, others⟩ := Option.or_eq_none_iff.1 fit
    obtain rfl := ih first
    cases ih' others
    rfl

end Value.ExportsTo

/-- An export that is the same in every session. -/
structure Exporter.Steady (start : Session)
    (object : BoundObject → Session → Session × Except ObjectError Value) : Prop where
  evolves : ∀ o (s : Session), s.Evolves (object o s).1
  steady : ∀ o, start.Steady fun s => (object o s).2

/-- What an exporter makes of objects. -/
def Exporter.Gives (start : Session)
    (object : BoundObject → Session → Session × Except ObjectError Value) (x : BoundObject)
    (u : Value) : Prop :=
  (object x start).2 = .ok u

section

variable {object : BoundObject → Session → Session × Except ObjectError Value}

theorem Value.exportItems_cons (v : Value) (rest : List Value) (s : Session) :
    (Value.exportItems object (v :: rest) s).2 =
      (v.exportWith object s).2.bind fun w =>
        (Value.exportItems object rest (v.exportWith object s).1).2.map (w :: ·) := by
  rw [Value.exportItems]
  rcases v.exportWith object s with ⟨s', _ | w⟩
  · rfl
  · dsimp only
    rcases Value.exportItems object rest s' with ⟨_, _ | ws⟩ <;> rfl

theorem Value.exportEntries_cons (key : String) (v : Value) (rest : List (String × Value))
    (s : Session) :
    (Value.exportEntries object ((key, v) :: rest) s).2 =
      (v.exportWith object s).2.bind fun w =>
        (Value.exportEntries object rest (v.exportWith object s).1).2.map ((key, w) :: ·) := by
  rw [Value.exportEntries]
  rcases v.exportWith object s with ⟨s', _ | w⟩
  · rfl
  · dsimp only
    rcases Value.exportEntries object rest s' with ⟨_, _ | ws⟩ <;> rfl

theorem Value.exportWith_array (items : List Value) (s : Session) :
    ((Value.array items).exportWith object s).2 =
      (Value.exportItems object items s).2.map Value.array := by
  rw [Value.exportWith]
  rcases Value.exportItems object items s with ⟨_, _ | ws⟩ <;> rfl

theorem Value.exportWith_map (entries : List (String × Value)) (s : Session) :
    ((Value.map entries).exportWith object s).2 =
      (Value.exportEntries object entries s).2.map Value.map := by
  rw [Value.exportWith]
  rcases Value.exportEntries object entries s with ⟨_, _ | ws⟩ <;> rfl

theorem map_eq_ok_iff {ε α β : Type} {x : Except ε α} {f : α → β} {b : β} :
    x.map f = .ok b ↔ ∃ a, x = .ok a ∧ b = f a := by
  cases x with
  | error e => simp [Except.map]
  | ok a =>
    simp only [Except.map, Except.ok.injEq, exists_eq_left']
    exact eq_comm

theorem bind_map_eq_ok_iff {ε α β γ : Type} {x : Except ε α} {y : Except ε β} {f : α → β → γ}
    {c : γ} :
    (x.bind fun a => y.map (f a)) = .ok c ↔ ∃ a b, x = .ok a ∧ y = .ok b ∧ c = f a b := by
  cases x with
  | error e => simp [Except.bind]
  | ok a =>
    rw [Except.bind, map_eq_ok_iff]
    simp

theorem mapError_eq_ok_iff {ε ε' α : Type} {x : Except ε α} {f : ε → ε'} {a : α} :
    x.mapError f = .ok a ↔ x = .ok a := by
  cases x <;> simp [Except.mapError]

mutual

theorem Value.exportWith_iff (ho : Exporter.Steady start object) (hstart : start.Keeps start) :
    ∀ {v w : Value} {s}, start.Keeps s →
      ((v.exportWith object s).2 = .ok w ↔ v.ExportsTo (Exporter.Gives start object) w)
  | .object schema cls table data, w, s, hs => by
    have same : (object ⟨schema, cls, table, data⟩ s).2 =
        (object ⟨schema, cls, table, data⟩ start).2 := ho.steady _ hs hstart
    simp only [Value.exportWith, same]
    constructor
    · intro h
      exact .object (x := ⟨schema, cls, table, data⟩) h
    · exact Value.ExportsTo.of_object (o := ⟨schema, cls, table, data⟩)
  | .array items, w, s, hs => by
    rw [Value.exportWith_array, map_eq_ok_iff, Value.ExportsTo.array_iff]
    refine exists_congr fun ws => ?_
    rw [Value.exportItems_iff ho hstart hs, and_comm]
  | .map entries, w, s, hs => by
    rw [Value.exportWith_map, map_eq_ok_iff, Value.ExportsTo.map_iff]
    refine exists_congr fun ws => ?_
    rw [Value.exportEntries_iff ho hstart hs, and_comm]
  | .null, _, _, _ | .bool _, _, _, _ | .int _, _, _, _ | .float _, _, _, _ | .str _, _, _, _
  | .handle _, _, _, _ => by
    rw [Value.ExportsTo.leaf_iff rfl rfl]
    simp only [Value.exportWith, Except.ok.injEq]
    exact eq_comm

theorem Value.exportItems_iff (ho : Exporter.Steady start object)
    (hstart : start.Keeps start) :
    ∀ {items ws : List Value} {s}, start.Keeps s →
      ((Value.exportItems object items s).2 = .ok ws ↔
        List.Forall₂ (Value.ExportsTo (Exporter.Gives start object)) items ws)
  | [], ws, s, hs => by
    simp only [Value.exportItems, Except.ok.injEq, List.forall₂_nil_left_iff]
    exact eq_comm
  | v :: rest, ws, s, hs => by
    have hs' := hs.evolves (Value.exportWith_evolves ho.evolves v s)
    rw [Value.exportItems_cons, bind_map_eq_ok_iff, List.forall₂_cons_left_iff]
    refine exists_congr fun w => exists_congr fun ws' => ?_
    rw [Value.exportWith_iff ho hstart hs, Value.exportItems_iff ho hstart hs']

theorem Value.exportEntries_iff (ho : Exporter.Steady start object)
    (hstart : start.Keeps start) :
    ∀ {entries ws : List (String × Value)} {s}, start.Keeps s →
      ((Value.exportEntries object entries s).2 = .ok ws ↔
        EntriesExport (Exporter.Gives start object) entries ws)
  | [], ws, s, hs => by
    simp only [Value.exportEntries, Except.ok.injEq, entriesExport_nil_iff]
    exact eq_comm
  | (key, v) :: rest, ws, s, hs => by
    have hs' := hs.evolves (Value.exportWith_evolves ho.evolves v s)
    rw [Value.exportEntries_cons, bind_map_eq_ok_iff, entriesExport_cons_iff]
    refine exists_congr fun w => exists_congr fun ws' => ?_
    rw [Value.exportWith_iff ho hstart hs, Value.exportEntries_iff ho hstart hs']

end

end

/-! ### Objects -/

namespace BoundObject

variable {depth : Nat} {field : String}

section

variable {object : BoundObject → Session → Session × Except ObjectError Value}

theorem exportFields_cons (cls : ClassPath) (name : String) (v : Value)
    (rest : List (String × Value)) (s : Session) :
    (exportFields cls object ((name, v) :: rest) s).2 =
      ((v.exportWith object s).2.mapError fun e => .exportFailure cls (.field name e)).bind fun w =>
        (exportFields cls object rest (v.exportWith object s).1).2.map ((name, w) :: ·) := by
  rw [exportFields]
  rcases v.exportWith object s with ⟨s', _ | w⟩
  · rfl
  · dsimp only
    rcases exportFields cls object rest s' with ⟨_, _ | ws⟩ <;> rfl

theorem exportFields_iff (ho : Exporter.Steady start object) (hstart : start.Keeps start)
    (cls : ClassPath) {entries ws : List (String × Value)} (hs : start.Keeps s) :
    (exportFields cls object entries s).2 = .ok ws ↔
      EntriesExport (Exporter.Gives start object) entries ws := by
  induction entries generalizing ws s with
  | nil =>
    simp only [exportFields, Except.ok.injEq, entriesExport_nil_iff]
    exact eq_comm
  | cons entry rest ih =>
    obtain ⟨name, v⟩ := entry
    have hs' := hs.evolves (Value.exportWith_evolves ho.evolves v s)
    rw [exportFields_cons, bind_map_eq_ok_iff, entriesExport_cons_iff]
    refine exists_congr fun w => exists_congr fun ws' => ?_
    rw [mapError_eq_ok_iff, Value.exportWith_iff ho hstart hs, ih hs']

end

/-- Every stored field converts. -/
def Converts (start : Session) (o : BoundObject) : Prop :=
  ∀ field v, o.slot? field = some v → ((o.outlet field).convert builder v start).error = none

/-- The object has an export, within as many levels of objects as there may be. -/
def ExportsTo (start : Session) (depth : Nat) (o : BoundObject) (v : Value) : Prop :=
  (exportWith builder depth o start).2 = .ok v

theorem converts_iff (hstart : start.Keeps start) :
    (o.analyseFlat builder start).report.hasBad = false ↔ o.Converts start := by
  rw [analyseFlat_good hstart o hstart]
  constructor
  · intro h field v hv
    exact (h field v hv).1
  · intro h field v hv
    exact ⟨h field v hv, Value.nested_of_forall (fun _ => trivial) _ _⟩

theorem exportWith_clean (clean : (o.analyseFlat builder s).report.hasBad = false) :
    (exportWith builder (depth + 1) o s).2 =
      (exportFields o.cls (exportWith builder depth) (o.analyseFlat builder s).object.data
        (o.analyseFlat builder s).session).2.map Value.map := by
  rw [exportWith, if_neg (by simp [clean])]
  rcases exportFields o.cls _ _ (o.analyseFlat builder s).session with ⟨_, _ | ws⟩ <;> rfl

theorem exportWith_exporter (start : Session) (depth : Nat) :
    Exporter.Steady start (exportWith builder depth) :=
  ⟨exportWith_evolves builder_evolves depth,
    exportWith_steady builder_evolves (builder_steady start) depth⟩

/-- An object has an export exactly if its fields convert and the values that they convert to have
exports, objects in them within one level less. -/
theorem exportsTo_succ_iff (hstart : start.Keeps start) :
    o.ExportsTo start (depth + 1) v ↔
      o.Converts start ∧ ∃ entries, v = .map entries ∧
        EntriesExport (ExportsTo start depth) (o.analyseFlat builder start).object.data entries := by
  have hs := hstart.evolves (o.analyseFlat_evolves builder_evolves start)
  rw [← converts_iff hstart]
  cases bad : (o.analyseFlat builder start).report.hasBad with
  | true =>
    refine iff_of_false ?_ fun h => Bool.noConfusion h.1
    rw [ExportsTo, exportWith]
    simp [bad]
  | false =>
    rw [ExportsTo, exportWith_clean bad, map_eq_ok_iff, eq_self, true_and]
    refine exists_congr fun entries => ?_
    rw [exportFields_iff (exportWith_exporter start depth) hstart o.cls hs, and_comm]
    rfl

theorem ExportsTo.mono (hstart : start.Keeps start) (h : o.ExportsTo start depth v) {limit : Nat}
    (hd : depth ≤ limit) : o.ExportsTo start limit v := by
  induction depth generalizing o v limit with
  | zero => cases h
  | succ depth ih =>
    obtain ⟨limit, rfl⟩ := Nat.exists_eq_add_of_le' hd
    rw [← Nat.add_assoc, exportsTo_succ_iff hstart]
    obtain ⟨converts, entries, rfl, exported⟩ := (exportsTo_succ_iff hstart).1 h
    refine ⟨converts, entries, rfl, exported.imp ?_⟩
    intro field u w shown
    exact shown.mono fun x u hx => ih hx (Nat.le_add_left depth limit)

/-- The data with every field converted. -/
def converted (start : Session) (o : BoundObject) : Dict String Value :=
  o.data.map fun entry => (entry.1, ((o.outlet entry.1).convert builder entry.2 start).value)

theorem analyseFlat_data (hstart : start.Keeps start) (distinct : Dict.Distinct o.data) :
    (o.analyseFlat builder start).object.data = o.converted start := by
  have keys : Dict.keys (o.converted start) = Dict.keys o.data := by
    simp [converted, Dict.keys]
  refine Dict.eq_of_get? (by rwa [Dict.Distinct, keys]) ?_ ?_
  · rw [keys]
    exact (o.analyseFlat_changesOnly start).keys
  · intro entry hentry
    obtain ⟨stored, hstored, rfl⟩ := List.mem_map.1 hentry
    have slot := o.analyseFlat_slot? hstart hstart stored.1
    have hstored : o.slot? stored.1 = some stored.2 := Dict.get?_of_mem distinct hstored
    rw [hstored] at slot
    exact slot

end BoundObject

end LazyBinding
