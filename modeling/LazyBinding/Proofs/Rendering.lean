import LazyBinding.Proofs.Conformity
import LazyBinding.Proofs.ExportRelation

/-!
# What an export shows of a field

The entry of a field in an export follows from its type and its stored value alone. Null stays null
and an array keeps its items in order; a list that is written as a map becomes an array. Below the
array levels, an untyped tree stays as it is, a scalar is cast, and an object is replaced by the map
of its own export.
-/
namespace LazyBinding

variable {start s t : Session} {p : Passage} {n : Nat} {v w : Value} {o x : BoundObject}
variable {E E' : BoundObject → Value → Prop}

mutual

theorem Value.exportsTo_self : ∀ {v : Value}, v.unfit? = none → v.ExportsTo E v
  | .array _, fit => .array_iff.2 ⟨_, rfl, Value.itemsExport_self fit⟩
  | .map _, fit => .map_iff.2 ⟨_, rfl, Value.entriesExport_self fit⟩
  | .null, _ | .bool _, _ | .int _, _ | .float _, _ | .str _, _ => .leaf rfl rfl

theorem Value.itemsExport_self : ∀ {items : List Value}, Value.unfitInItems? items = none →
    List.Forall₂ (Value.ExportsTo E) items items
  | [], _ => .nil
  | v :: rest, fit => by
    obtain ⟨first, others⟩ := Option.or_eq_none_iff.1 fit
    exact .cons (Value.exportsTo_self first) (Value.itemsExport_self others)

theorem Value.entriesExport_self : ∀ {entries : List (String × Value)},
    Value.unfitInEntries? entries = none → EntriesExport E entries entries
  | [], _ => .nil
  | (key, v) :: rest, fit => by
    obtain ⟨first, others⟩ := Option.or_eq_none_iff.1 fit
    exact .cons ⟨rfl, Value.exportsTo_self first⟩ (Value.entriesExport_self others)

end

theorem Value.exportsTo_iff_of_fit (fit : v.unfit? = none) : v.ExportsTo E w ↔ w = v := by
  constructor
  · intro h
    exact h.of_fit fit
  · rintro rfl
    exact exportsTo_self fit

namespace Passage

/-- The object that a value below all array levels converts to. -/
def Holds (start : Session) (p : Passage) (v : Value) (x : BoundObject) : Prop :=
  let converted := p.convertBase BoundObject.builder v start
  converted.error = none ∧ converted.value = .ofObject x

def RendersBase (start : Session) (E : BoundObject → Value → Prop) (p : Passage) (v w : Value) :
    Prop :=
  match p.type.base with
  | .any => p.checkUntyped v = none ∧ w = v
  | .primitive kind => p.toPrimitive kind v = (w, none)
  | .object _ => ∃ x, p.Holds start v x ∧ E x w

/-- An export shows the first value, which lies under a number of array levels of a field, as the
second one; `E` says how objects are shown. -/
def Renders (start : Session) (E : BoundObject → Value → Prop) (p : Passage) :
    (remaining : Nat) → Value → Value → Prop
  | _, .null, w => w = .null
  | 0, v, w => p.RendersBase start E v w
  | n + 1, v, w => ∃ items ws, v.items? = some items ∧ w = .array ws ∧
      List.Forall₂ (Renders start E p n) items ws

theorem renders_null : p.Renders start E n .null w ↔ w = .null := by
  cases n <;> simp only [Renders]

theorem renders_zero (hv : v ≠ .null) : p.Renders start E 0 v w ↔ p.RendersBase start E v w := by
  cases v with
  | null => exact absurd rfl hv
  | _ => simp only [Renders]

theorem renders_succ (hv : v ≠ .null) :
    p.Renders start E (n + 1) v w ↔ ∃ items ws, v.items? = some items ∧ w = .array ws ∧
      List.Forall₂ (p.Renders start E n) items ws := by
  cases v with
  | null => exact absurd rfl hv
  | _ => simp only [Renders]

theorem renders_items {items : List Value} (source : v.items? = some items) :
    p.Renders start E (n + 1) v w ↔
      ∃ ws, w = .array ws ∧ List.Forall₂ (p.Renders start E n) items ws := by
  have hv : v ≠ .null := by
    rintro rfl
    cases source
  rw [renders_succ hv]
  constructor
  · rintro ⟨_, ws, source', rest⟩
    cases source.symm.trans source'
    exact ⟨ws, rest⟩
  · rintro ⟨ws, rest⟩
    exact ⟨items, ws, source, rest⟩

theorem convertBase_object {cls : ClassPath} (base : p.type.base = .object cls)
    (h : (p.convertBase BoundObject.builder v s).error = none) :
    ∃ x, (p.convertBase BoundObject.builder v s).value = .ofObject x := by
  unfold convertBase at h ⊢
  rw [base] at h ⊢
  dsimp only at h ⊢
  split at h
  · unfold materialize construct at h ⊢
    split at h
    · exact ⟨⟨_, _, _, _⟩, rfl⟩
    · split at h
      · exact ⟨_, rfl⟩
      · cases h
    · split at h
      · exact ⟨_, rfl⟩
      · cases h
    · cases h
    · cases h
  · unfold accept at h
    split at h
    · exact ⟨⟨_, _, _, _⟩, rfl⟩
    · cases h

theorem rendersBase_iff :
    (p.convertBase BoundObject.builder v start).error = none ∧
        (p.convertBase BoundObject.builder v start).value.ExportsTo E w ↔
      p.RendersBase start E v w := by
  unfold RendersBase
  split
  · next base =>
    simp only [convertBase, base]
    refine and_congr_right fun error => ?_
    exact Value.exportsTo_iff_of_fit (checkUntyped_eq_none.1 error).1
  · next kind base =>
    cases cast : p.toPrimitive kind v with
    | mk u error =>
      simp only [convertBase, base, cast, Prod.mk.injEq]
      rw [and_comm (a := u = w)]
      refine and_congr_right ?_
      rintro rfl
      rw [Value.exportsTo_iff_of_fit (Value.fit_of_kind (toPrimitive_kind cast)), eq_comm]
  · next cls base =>
    constructor
    · rintro ⟨error, exported⟩
      obtain ⟨x, hx⟩ := convertBase_object base error
      rw [hx] at exported
      exact ⟨x, ⟨error, hx⟩, exported.of_object⟩
    · rintro ⟨x, ⟨error, hx⟩, exported⟩
      refine ⟨error, ?_⟩
      rw [hx]
      exact .object exported

theorem renderItems_iff {item : Value → Session → Converted}
    (he : ∀ v (s : Session), s.Evolves (item v s).session)
    (hi : ∀ v, start.Steady fun s => (item v s).outcome) (hstart : start.Keeps start)
    {items ws : List Value} (hs : start.Keeps s) :
    (convertItems item items s).error = none ∧
        List.Forall₂ (Value.ExportsTo E) (convertItems item items s).items ws ↔
      List.Forall₂ (fun v w => (item v start).error = none ∧ (item v start).value.ExportsTo E w)
        items ws := by
  induction items generalizing ws s with
  | nil => simp [convertItems]
  | cons v rest ih =>
    obtain ⟨hvalue, herror⟩ := Prod.mk.inj (hi v hs hstart)
    rw [List.forall₂_cons_left_iff]
    unfold convertItems
    dsimp only
    cases error : (item v s).error with
    | some e => simp [← herror, error]
    | none =>
      dsimp only
      rw [List.forall₂_cons_left_iff]
      simp only [← ih (hs.evolves (he v s)), ← herror, ← hvalue, error, true_and]
      constructor
      · rintro ⟨others, w, ws', first, exported, rfl⟩
        exact ⟨w, ws', first, ⟨others, exported⟩, rfl⟩
      · rintro ⟨w, ws', first, ⟨others, exported⟩, rfl⟩
        exact ⟨others, w, ws', first, exported, rfl⟩

theorem renders_iff_null :
    (p.convertLevel BoundObject.builder n .null start).error = none ∧
        (p.convertLevel BoundObject.builder n .null start).value.ExportsTo E w ↔
      p.Renders start E n .null w := by
  simp only [convertLevel, renders_null, true_and]
  exact Value.exportsTo_iff_of_fit rfl

/-- A value converts, and what it converts to exports to `w`, exactly if `w` is what an export
shows of it. -/
theorem renders_iff (hstart : start.Keeps start) :
    (p.convertLevel BoundObject.builder n v start).error = none ∧
        (p.convertLevel BoundObject.builder n v start).value.ExportsTo E w ↔
      p.Renders start E n v w := by
  induction n generalizing v w with
  | zero =>
    by_cases hv : v = .null
    · subst hv
      exact renders_iff_null
    · rw [convertLevel_zero hv, renders_zero hv]
      exact rendersBase_iff
  | succ n ih =>
    by_cases hv : v = .null
    · subst hv
      exact renders_iff_null
    · cases source : v.items? with
      | none =>
        obtain ⟨e, -, stuck⟩ := p.convertLevel_noItems n hv source
        rw [stuck]
        refine iff_of_false (fun h => by cases h.1) fun h => ?_
        obtain ⟨items, ws, source', -⟩ := (renders_succ hv).1 h
        cases source.symm.trans source'
      | some items =>
        simp only [renders_items source, convertLevel_items source, convertLevel_array,
          Value.ExportsTo.array_iff, ← exists_and_left]
        refine exists_congr fun ws => ?_
        rw [and_left_comm, renderItems_iff (p.convertLevel_evolves BoundObject.builder_evolves n)
          (p.convertLevel_steady BoundObject.builder_evolves (BoundObject.builder_steady start) n)
          hstart hstart]
        simp only [ih]

theorem RendersBase.mono (h : p.RendersBase start E v w) (he : ∀ x u, E x u → E' x u) :
    p.RendersBase start E' v w := by
  unfold RendersBase at h ⊢
  split
  · next base =>
    rw [base] at h
    exact h
  · next kind base =>
    rw [base] at h
    exact h
  · next cls base =>
    rw [base] at h
    obtain ⟨x, holds, hx⟩ := h
    exact ⟨x, holds, he x w hx⟩

theorem Renders.mono (h : p.Renders start E n v w) (he : ∀ x u, E x u → E' x u) :
    p.Renders start E' n v w := by
  induction n generalizing v w with
  | zero =>
    by_cases hv : v = .null
    · subst hv
      exact renders_null.2 (renders_null.1 h)
    · exact (renders_zero hv).2 (((renders_zero hv).1 h).mono he)
  | succ n ih =>
    by_cases hv : v = .null
    · subst hv
      exact renders_null.2 (renders_null.1 h)
    · obtain ⟨items, ws, source, rfl, all⟩ := (renders_succ hv).1 h
      exact (renders_succ hv).2 ⟨items, ws, source, rfl, all.imp fun _ _ => ih⟩

end Passage

namespace BoundObject

variable {depth : Nat}

/-- An export shows the value of a field as another one. -/
def ShowsField (start : Session) (E : BoundObject → Value → Prop) (o : BoundObject)
    (field : String) (v w : Value) : Prop :=
  (o.outlet field).Renders start E (o.outlet field).type.depth v w

theorem showsField_iff (hstart : start.Keeps start) {field : String} :
    o.ShowsField start E field v w ↔
      ((o.outlet field).convert builder v start).error = none ∧
        ((o.outlet field).convert builder v start).value.ExportsTo E w :=
  (Passage.renders_iff hstart).symm

/-- An object exports to the map of what an export shows of its fields. -/
theorem exportsTo_iff (hstart : start.Keeps start) (distinct : Dict.Distinct o.data) :
    o.ExportsTo start (depth + 1) v ↔ ∃ entries, v = .map entries ∧
      Dict.Related (o.ShowsField start (ExportsTo start depth)) o.data entries := by
  have converts : o.Converts start ↔ ∀ stored ∈ o.data,
      ((o.outlet stored.1).convert builder stored.2 start).error = none := by
    constructor
    · intro h stored hstored
      exact h _ _ (Dict.get?_of_mem distinct hstored)
    · intro h field v hv
      exact h (field, v) (Dict.mem_of_get? hv)
  rw [exportsTo_succ_iff hstart, ← exists_and_left]
  refine exists_congr fun entries => ?_
  rw [and_left_comm]
  refine and_congr_right fun _ => ?_
  have split : ∀ stored exported : String × Value,
      (stored.1 = exported.1 ∧
        o.ShowsField start (ExportsTo start depth) stored.1 stored.2 exported.2) ↔
      ((o.outlet stored.1).convert builder stored.2 start).error = none ∧
        stored.1 = exported.1 ∧ Value.ExportsTo (ExportsTo start depth)
          ((o.outlet stored.1).convert builder stored.2 start).value exported.2 := by
    intro stored exported
    rw [showsField_iff hstart]
    exact and_left_comm
  simp only [Dict.Related, split, List.forall₂_and_left, ← converts]
  refine and_congr_right fun _ => ?_
  rw [analyseFlat_data hstart distinct, EntriesExport, Dict.Related, converted,
    List.forall₂_map_left_iff]

end BoundObject

end LazyBinding
