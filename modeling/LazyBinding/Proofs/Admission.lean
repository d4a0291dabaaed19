import LazyBinding.Proofs.Conformity
import LazyBinding.Proofs.Exploration

/-!
# What a conversion admits

Whether a value gets through a field can be read off the value: off its shape under the array levels
of the type, and off what stands below them. A conversion succeeds for exactly these values,
whatever else the session has done, and what it leaves conforms to the type.
-/
namespace LazyBinding

variable {start s t : Session} {p : Passage} {n : Nat} {v : Value}

/-- A tree of nulls, scalars, arrays and maps. -/
inductive Value.IsTree : Value → Prop where
  | null : IsTree .null
  | scalar {v : Value} (h : v.isScalar = true) : IsTree v
  | array {items : List Value} (h : ∀ v ∈ items, IsTree v) : IsTree (.array items)
  | map {entries : List (String × Value)} (h : ∀ entry ∈ entries, IsTree entry.2) :
      IsTree (.map entries)

namespace Value

mutual

theorem isTree_of_fit : ∀ {v : Value}, v.unfit? = none → v.IsTree
  | .null, _ => .null
  | .bool _, _ | .int _, _ | .float _, _ | .str _, _ => .scalar rfl
  | .array _, fit => .array (isTree_of_fitItems fit)
  | .map _, fit => .map (isTree_of_fitEntries fit)

theorem isTree_of_fitItems : ∀ {items : List Value}, unfitInItems? items = none →
    ∀ v ∈ items, v.IsTree
  | [], _ => by simp
  | _ :: _, fit => by
    obtain ⟨first, others⟩ := Option.or_eq_none_iff.1 fit
    exact List.forall_mem_cons.2 ⟨isTree_of_fit first, isTree_of_fitItems others⟩

theorem isTree_of_fitEntries : ∀ {entries : List (String × Value)},
    unfitInEntries? entries = none → ∀ entry ∈ entries, entry.2.IsTree
  | [], _ => by simp
  | (_, _) :: _, fit => by
    obtain ⟨first, others⟩ := Option.or_eq_none_iff.1 fit
    exact List.forall_mem_cons.2 ⟨isTree_of_fit first, isTree_of_fitEntries others⟩

end

theorem unfit?_eq_none_iff : v.unfit? = none ↔ v.IsTree := by
  constructor
  · intro fit
    exact isTree_of_fit fit
  · intro tree
    induction tree with
    | null => rfl
    | scalar h => exact unfit?_of_isScalar h
    | array _ ih => exact unfitInItems?_eq_none.2 ih
    | map _ ih => exact unfitInEntries?_eq_none.2 ih

theorem isScalar_of_fit (hv : v ≠ .null) (fit : v.unfit? = none) (flat : v.isSequence = false) :
    v.isScalar = true := by
  cases v with
  | null => exact absurd rfl hv
  | array => cases flat
  | map => cases flat
  | object => cases fit
  | handle => cases fit
  | _ => rfl

theorem isSequence_of_isScalar (h : v.isScalar = true) : v.isSequence = false := by
  cases v <;> first | rfl | cases h

theorem firstOffKey_eq_none_iff {position : Nat} {entries : List (String × Value)} :
    firstOffKey position entries = none ↔
      Dict.keys entries = (List.range' position entries.length).map toString := by
  induction entries generalizing position with
  | nil => simp [firstOffKey, Dict.keys]
  | cons entry rest ih =>
    obtain ⟨key, v⟩ := entry
    rw [firstOffKey, List.length_cons, List.range'_succ, List.map_cons, Dict.keys, List.map_cons,
      List.cons.injEq]
    by_cases hkey : key = toString position
    · rw [if_pos hkey, ih]
      exact (and_iff_right hkey).symm
    · rw [if_neg hkey]
      exact iff_of_false (by simp) fun h => hkey h.1

end Value

/-- The entries are a list in disguise: their keys are the numbers from zero on, in order. -/
def Dict.IsListing (entries : Dict String Value) : Prop :=
  keys entries = (List.range entries.length).map toString

theorem Dict.isListing_iff {entries : Dict String Value} :
    IsListing entries ↔ Value.firstOffKey 0 entries = none := by
  rw [Value.firstOffKey_eq_none_iff, IsListing, List.range_eq_range']

namespace Passage

/-- A value that gets through a passage, where a number of array levels remains. -/
inductive Admits (s : Session) (p : Passage) : (remaining : Nat) → Value → Prop where
  | null {n : Nat} : Admits s p n .null
  | untyped {v : Value} (base : p.type.base = .any) (tree : v.IsTree)
      (flat : 0 < p.type.depth → v.isScalar = true) : Admits s p 0 v
  | primitive {kind : Primitive} {v : Value} (base : p.type.base = .primitive kind)
      (scalar : v.isScalar = true) : Admits s p 0 v
  | object {cls : ClassPath} {o : BoundObject} (base : p.type.base = .object cls)
      (descends : (s.registry p.schema).isA o.cls cls = true) : Admits s p 0 (.ofObject o)
  | data {cls : ClassPath} {v : Value} {data : Dict String Value} {o : BoundObject}
      (base : p.type.base = .object cls) (outward : p.direction = .materialize)
      (source : v.objectData? = some data)
      (made : (BoundObject.make p.schema cls data s).2 = .ok o) : Admits s p 0 v
  | array {n : Nat} {items : List Value} (items_admitted : ∀ v ∈ items, Admits s p n v) :
      Admits s p (n + 1) (.array items)
  | listing {n : Nat} {entries : Dict String Value} (keys : Dict.IsListing entries)
      (values_admitted : ∀ v ∈ Dict.values entries, Admits s p n v) :
      Admits s p (n + 1) (.map entries)

theorem admits_array_iff {items : List Value} :
    p.Admits s (n + 1) (.array items) ↔ ∀ v ∈ items, p.Admits s n v := by
  constructor
  · intro h
    cases h with
    | array items_admitted => exact items_admitted
  · exact .array

theorem admits_map_iff {entries : Dict String Value} :
    p.Admits s (n + 1) (.map entries) ↔
      Dict.IsListing entries ∧ ∀ v ∈ Dict.values entries, p.Admits s n v := by
  constructor
  · intro h
    cases h with
    | listing keys values_admitted => exact ⟨keys, values_admitted⟩
  · rintro ⟨keys, values_admitted⟩
    exact .listing keys values_admitted

/-! ### Below the array levels -/

theorem toPrimitive_of_isScalar {kind : Primitive} (h : v.isScalar = true) :
    (p.toPrimitive kind v).2 = none := by
  unfold toPrimitive
  split
  case h_5 =>
    simp only [Value.isSequence_of_isScalar h, Value.cast?, h, if_true]
    rfl
  all_goals rfl

theorem construct_eq_none_iff {cls : ClassPath} {data : Dict String Value} (hs : start.Keeps s)
    (ht : start.Keeps t) :
    (p.construct BoundObject.builder cls v data s).error = none ↔
      ∃ o, (BoundObject.make p.schema cls data t).2 = .ok o := by
  have steady : (BoundObject.make p.schema cls data t).2 =
      (BoundObject.builder p.schema cls data s).2 :=
    BoundObject.builder_steady start p.schema cls data ht hs
  rw [steady, construct]
  rcases BoundObject.builder p.schema cls data s with ⟨_, _ | o⟩
  · simp
  · simp

theorem checkInstance_iff {cls actual : ClassPath} (hs : start.Keeps s) (ht : start.Keeps t) :
    p.checkInstance s cls actual = none ↔ (t.registry p.schema).isA actual cls = true := by
  rw [checkInstance_eq_none, hs.registry, ht.registry]

theorem admits_of_materialize {cls : ClassPath} (base : p.type.base = .object cls)
    (outward : p.direction = .materialize) (hs : start.Keeps s) (ht : start.Keeps t)
    (h : (p.materialize BoundObject.builder cls v s).error = none) : p.Admits t 0 v := by
  have made : ∀ {data}, v.objectData? = some data →
      (p.construct BoundObject.builder cls v data s).error = none → p.Admits t 0 v := by
    intro data source h
    obtain ⟨o, made⟩ := (construct_eq_none_iff hs ht).1 h
    exact .data base outward source made
  unfold materialize at h
  split at h
  · next schema actual table data =>
    exact .object (o := ⟨schema, actual, table, data⟩) base ((checkInstance_iff hs ht).1 h)
  · exact made rfl h
  · exact made rfl h
  · cases h
  · cases h

theorem admits_of_convertBase (hv : v ≠ .null) (hs : start.Keeps s) (ht : start.Keeps t)
    (h : (p.convertBase BoundObject.builder v s).error = none) : p.Admits t 0 v := by
  unfold convertBase at h
  split at h
  · next base =>
    obtain ⟨fit, flat⟩ := checkUntyped_eq_none.1 h
    refine .untyped base (Value.unfit?_eq_none_iff.1 fit) ?_
    intro deep
    exact Value.isScalar_of_fit hv fit (flat deep)
  · next kind base => exact .primitive base (isScalar_of_cast (Prod.ext rfl h))
  · next cls base =>
    split at h
    · next outward => exact admits_of_materialize base outward hs ht h
    · unfold accept at h
      split at h
      · next schema actual table data =>
        exact .object (o := ⟨schema, actual, table, data⟩) base ((checkInstance_iff hs ht).1 h)
      · cases h

theorem convertBase_of_admits (hv : v ≠ .null) (hs : start.Keeps s) (ht : start.Keeps t)
    (h : p.Admits t 0 v) : (p.convertBase BoundObject.builder v s).error = none := by
  cases h with
  | null => exact absurd rfl hv
  | untyped base tree flat =>
    simp only [convertBase, base]
    refine checkUntyped_eq_none.2 ⟨Value.unfit?_eq_none_iff.2 tree, ?_⟩
    intro deep
    exact Value.isSequence_of_isScalar (flat deep)
  | primitive base scalar =>
    simp only [convertBase, base]
    exact toPrimitive_of_isScalar scalar
  | @object cls o base descends =>
    have checked : p.checkInstance s cls o.cls = none := (checkInstance_iff hs ht).2 descends
    unfold convertBase
    rw [base]
    dsimp only
    split
    · exact checked
    · exact checked
  | data base outward source made =>
    rw [convertBase_data base outward source]
    exact (construct_eq_none_iff hs ht).2 ⟨_, made⟩

/-! ### Under array levels -/

theorem convertItems_eq_none_iff {item : Value → Session → Converted} {Q : Value → Prop}
    (he : ∀ v (s : Session), s.Evolves (item v s).session)
    (hi : ∀ v {s}, start.Keeps s → ((item v s).error = none ↔ Q v)) (items : List Value)
    (hs : start.Keeps s) : (convertItems item items s).error = none ↔ ∀ v ∈ items, Q v := by
  induction items generalizing s with
  | nil => simp [convertItems]
  | cons v rest ih =>
    rw [List.forall_mem_cons, ← hi v hs, ← ih (hs.evolves (he v s)), convertItems]
    cases h : (item v s).error with
    | some e => simp
    | none => simp

/-- A conversion succeeds exactly for what is admitted, as any session with the same schemas
tells. -/
theorem convertLevel_eq_none_iff (hs : start.Keeps s) (ht : start.Keeps t) :
    (p.convertLevel BoundObject.builder n v s).error = none ↔ p.Admits t n v := by
  induction n generalizing v s with
  | zero =>
    by_cases hv : v = .null
    · subst hv
      exact iff_of_true rfl .null
    · rw [convertLevel_zero hv]
      constructor
      · exact admits_of_convertBase hv hs ht
      · exact convertBase_of_admits hv hs ht
  | succ n ih =>
    have all : ∀ items, (p.convertLevel BoundObject.builder (n + 1) (.array items) s).error = none ↔
        ∀ v ∈ items, p.Admits t n v := fun items =>
      convertItems_eq_none_iff (p.convertLevel_evolves BoundObject.builder_evolves n)
        (fun v s hs => ih hs) items hs
    cases v with
    | null => exact iff_of_true rfl .null
    | array items => rw [all, admits_array_iff]
    | map entries =>
      rw [admits_map_iff, Dict.isListing_iff]
      cases keys : Value.firstOffKey 0 entries with
      | none =>
        rw [convertLevel_listed keys, all]
        exact (and_iff_right rfl).symm
      | some off =>
        refine iff_of_false ?_ (by simp)
        simp [convertLevel, keys]
    | _ => exact iff_of_false (by simp [convertLevel]) (by rintro ⟨⟩)

/-- A conversion succeeds exactly for the values that are admitted, and then what it leaves has the
form that the type describes, where an object is an instance of the class of the field or has been
made of data in the value. If all objects that are made of data in the value are instances, what it
leaves conforms to the type. What conforms is left as it is, on the way out as on the way in. -/
theorem convert_characterized (registries : List (Registry × Bool))
    (operations : List Session.Operation) (p : Passage) (v : Value) :
    let s := (Session.fresh registries).run operations
    let converted := p.convert BoundObject.builder v s
    (converted.error = none ↔ p.Admits s p.type.depth v) ∧
      (converted.error = none →
        Formed p.type (p.Leaves s p.type.depth v) p.type.depth converted.value) ∧
      (converted.error = none → p.MakesInstances s p.type.depth v →
        Conforms (s.registry p.schema) p.type p.type.depth converted.value) ∧
      ∀ w, Conforms (s.registry p.schema) p.type p.type.depth w → ∀ direction,
        Passage.convert BoundObject.builder { p with direction := direction } w s =
          ⟨s, w, none⟩ := by
  intro s converted
  have hs : s.Keeps s := ((Session.keeps_fresh registries).run operations).self
  refine ⟨convertLevel_eq_none_iff hs hs, ?_, ?_, ?_⟩
  · intro ok
    exact convertLevel_formed hs hs ok
  · intro ok instances
    exact convertLevel_conforms instances hs hs ok
  · intro w conforms direction
    exact Conforms.converts (p := { p with direction := direction }) conforms

end Passage

namespace SquareExample

open BoundObject

/-- A list of shapes on its way to a reader. -/
def shapes : Passage := ⟨0, "shapes", ⟨.object ⟨"Shape"⟩, 1⟩, .materialize⟩

/-- A list in disguise, of raw data, of nothing, of empty data and of an object. -/
def drawn : Value :=
  .map [("0", .map []), ("1", .null), ("2", .array []), ("3", .object 0 ⟨"Square"⟩ [] [])]

theorem drawn_admitted : shapes.Admits refined 1 drawn := by
  refine .listing (by rfl) ?_
  simp only [Dict.values, List.map_cons, List.map_nil, List.forall_mem_cons]
  exact ⟨.data rfl rfl rfl refined_made, .null, .data rfl rfl rfl refined_made,
    .object (o := ⟨0, ⟨"Square"⟩, [], []⟩) rfl (by rfl), by simp⟩

end SquareExample

open SquareExample in
theorem drawn_converts :
    let converted := shapes.convert BoundObject.builder drawn refined
    shapes.Admits refined 1 drawn ∧ shapes.MakesInstances refined 1 drawn ∧
      converted.error = none ∧
      Conforms (refined.registry 0) shapes.type 1 converted.value ∧
      Passage.convert BoundObject.builder { shapes with direction := .accept } converted.value
        refined = ⟨refined, converted.value, none⟩ ∧
      ¬ shapes.Admits refined 1 (.map [("1", .null)]) := by
  obtain ⟨admitted, -, conforms, fixed⟩ :=
    Passage.convert_characterized [(registry (some "Shape"), false)] [] shapes drawn
  have ok := admitted.2 drawn_admitted
  have instances : shapes.MakesInstances refined 1 drawn :=
    Passage.makesInstances_of_session refined_leavesInstances shapes 1 drawn
  refine ⟨drawn_admitted, instances, ok, conforms ok instances,
    fixed _ (conforms ok instances) .accept, ?_⟩
  intro admits
  have gap := Passage.convert_characterized [(registry (some "Shape"), false)] [] shapes
    (.map [("1", .null)])
  cases gap.1.2 admits

open SquareExample in
/-- Without that, a conversion may succeed and leave what the field does not take. -/
theorem replaced_shape_unfit :
    let converted := shape.convert BoundObject.builder (.map []) replaced
    shape.Admits replaced 0 (.map []) ∧ converted.error = none ∧
      ¬ Conforms (replaced.registry 0) shape.type 0 converted.value := by
  intro converted
  obtain ⟨error, value⟩ := replaced_shape replaced_keeps
  refine ⟨.data rfl rfl rfl replaced_made, error, ?_⟩
  intro conforms
  have left : converted.value = .ofObject ⟨0, ⟨"Square"⟩, [], []⟩ := value
  rw [left] at conforms
  obtain ⟨-, cls, base, descends⟩ := conforms.of_object
  cases base
  have unrelated : (replaced.registry 0).isA ⟨"Square"⟩ ⟨"Shape"⟩ = false := by rfl
  rw [unrelated] at descends
  cases descends

end LazyBinding
