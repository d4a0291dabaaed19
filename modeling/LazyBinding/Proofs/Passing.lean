import LazyBinding.Proofs.FieldReading

/-!
# Objects that pass

An object passes if every field converts and every object found below a field of object type passes
in turn. An analysis finds nothing bad exactly in an object that passes, although it goes on past
each problem and changes what it reads.
-/
namespace LazyBinding

variable {start s t : Session} {p : Passage} {n : Nat} {v w : Value} {o o' : BoundObject}

/-! ### Values without objects -/

theorem Value.unfitInItems?_eq_none {items : List Value} :
    Value.unfitInItems? items = none ↔ ∀ v ∈ items, v.unfit? = none := by
  induction items with
  | nil => simp [Value.unfitInItems?]
  | cons v rest ih => simp [Value.unfitInItems?, ih]

theorem Value.unfitInEntries?_eq_none {entries : List (String × Value)} :
    Value.unfitInEntries? entries = none ↔ ∀ entry ∈ entries, entry.2.unfit? = none := by
  induction entries with
  | nil => simp [Value.unfitInEntries?]
  | cons entry rest ih =>
    obtain ⟨key, v⟩ := entry
    simp [Value.unfitInEntries?, ih]

theorem Value.unfit?_of_isScalar (h : v.isScalar = true) : v.unfit? = none := by
  cases v <;> first | rfl | cases h

/-- All objects under a number of array levels of a value satisfy a predicate. -/
def Value.Nested (Q : BoundObject → Prop) : Nat → Value → Prop
  | 0, .object schema cls table data => Q ⟨schema, cls, table, data⟩
  | n + 1, .array items => ∀ v ∈ items, Nested Q n v
  | _, _ => True

theorem Value.nested_of_fit {Q : BoundObject → Prop} (h : v.unfit? = none) : v.Nested Q n := by
  induction n generalizing v with
  | zero =>
    cases v with
    | object => cases h
    | _ => trivial
  | succ n ih =>
    cases v with
    | array items => exact fun v hv => ih (Value.unfitInItems?_eq_none.1 h v hv)
    | _ => trivial

theorem Value.nested_of_forall {Q : BoundObject → Prop} (h : ∀ o, Q o) (n : Nat) (v : Value) :
    v.Nested Q n := by
  induction n generalizing v with
  | zero =>
    cases v with
    | object => exact h _
    | _ => trivial
  | succ n ih =>
    cases v with
    | array items => exact fun v _ => ih v
    | _ => trivial

namespace Passage

theorem convertBase_fit (typed : p.type.isObject = false)
    (h : (p.convertBase BoundObject.builder v s).error = none) :
    (p.convertBase BoundObject.builder v s).value.unfit? = none := by
  unfold convertBase at h ⊢
  split at h
  · dsimp only at h ⊢
    unfold checkUntyped at h
    split at h
    · cases h
    · simpa using h
  · next kind _ =>
    cases hw : p.toPrimitive kind v with
    | mk w error =>
      rw [hw] at h
      cases h
      exact Value.unfit?_of_isScalar (isScalar_of_cast (toPrimitive_again hw))
  · next cls hbase => simp [FieldType.isObject, FieldType.class?, hbase] at typed

theorem convertLevel_fit (typed : p.type.isObject = false)
    (h : (p.convertLevel BoundObject.builder n v s).error = none) :
    (p.convertLevel BoundObject.builder n v s).value.unfit? = none := by
  induction n generalizing v s with
  | zero =>
    by_cases hv : v = .null
    · subst hv
      rfl
    · rw [convertLevel_zero hv] at h ⊢
      exact convertBase_fit typed h
  | succ n ih =>
    have all : ∀ items, (convertItems (p.convertLevel BoundObject.builder n) items s).error = none →
        ∀ v ∈ (convertItems (p.convertLevel BoundObject.builder n) items s).items,
          v.unfit? = none :=
      fun items => convertItems_forall (P := fun _ => True) (fun _ _ _ => trivial) (fun _ _ _ _ => ih) trivial
    cases v with
    | null => rfl
    | array items => exact Value.unfitInItems?_eq_none.2 (all items h)
    | map entries =>
      cases keys : Value.firstOffKey 0 entries with
      | none =>
        rw [convertLevel_listed keys] at h ⊢
        exact Value.unfitInItems?_eq_none.2 (all _ h)
      | some _ =>
        simp only [convertLevel, keys] at h
        cases h
    | _ => cases h

end Passage

/-! ### Passing -/

namespace BoundObject

/-- Whether a field converts and the objects below it satisfy a predicate. -/
def FieldPasses (start : Session) (Q : BoundObject → Prop) (o : BoundObject) (field : String) :
    Prop :=
  ∀ v, o.slot? field = some v →
    let converted := (o.outlet field).convert builder v start
    converted.error = none ∧ converted.value.Nested Q (o.outlet field).type.depth

/-- All fields convert, and so do those of all objects below, which stand on fewer levels than
`depth`. -/
def Passes (start : Session) : (depth : Nat) → BoundObject → Prop
  | 0, _ => False
  | depth + 1, o => ∀ field, o.FieldPasses start (Passes start depth) field

end BoundObject

namespace BoundObject

variable {Q : BoundObject → Prop} {field : String}

theorem FieldPasses.congr {fields : List String} (changes : o.ChangesOnly fields o')
    (fresh : field ∉ fields) : o.FieldPasses start Q field ↔ o'.FieldPasses start Q field := by
  unfold FieldPasses
  rw [changes.slot? field fresh, changes.revises.outlet]

end BoundObject

/-! ### Analyses -/

/-- An analysis that has been complete and has found nothing bad. -/
def Analysed.IsGood (a : Analysed) : Prop := a.isComplete = true ∧ a.report.hasBad = false

/-- An analysis that tells of each object whether it satisfies a predicate. -/
structure Analyser.Decides (start : Session) (inner : Analyser) (Q : BoundObject → Prop) :
    Prop where
  evolves : inner.Evolves
  good : ∀ o path report {s}, start.Keeps s →
    ((inner o path report s).IsGood ↔ report.hasBad = false ∧ Q o)

theorem analyseItems_good {item : String → Value → Report → Session → AnalysedValue}
    {P : Value → Prop}
    (he : ∀ path v report (s : Session), s.Evolves (item path v report s).session)
    (hi : ∀ path v report {s}, start.Keeps s → ((item path v report s).isComplete = true ∧
      (item path v report s).report.hasBad = false ↔ report.hasBad = false ∧ P v))
    (path : String) (index : Nat) (items : List Value) (report : Report) (hs : start.Keeps s) :
    ((analyseItems item path index items report s).isComplete = true ∧
      (analyseItems item path index items report s).report.hasBad = false) ↔
      report.hasBad = false ∧ ∀ v ∈ items, P v := by
  induction items generalizing index report s with
  | nil => simp [analyseItems]
  | cons v rest ih =>
    have first := hi (Report.itemPath path index) v report hs
    have others := ih (index + 1) (item (Report.itemPath path index) v report s).report
      (hs.evolves (he (Report.itemPath path index) v report s))
    simp only [analyseItems, Bool.and_eq_true, List.forall_mem_cons]
    rw [and_assoc, others, ← and_assoc, first, and_assoc]

theorem analyseNested_good {inner : Analyser} {Q : BoundObject → Prop}
    (hi : Analyser.Decides start inner Q) (n : Nat) (path : String) (v : Value) (report : Report)
    (hs : start.Keeps s) :
    ((analyseNested inner n path v report s).isComplete = true ∧
      (analyseNested inner n path v report s).report.hasBad = false) ↔
      report.hasBad = false ∧ v.Nested Q n := by
  induction n generalizing path v report s with
  | zero =>
    cases v with
    | object schema cls table data => exact hi.good ⟨schema, cls, table, data⟩ path report hs
    | _ => simp [analyseNested, Value.Nested]
  | succ n ih =>
    cases v with
    | array items =>
      exact analyseItems_good (analyseNested_evolves hi.evolves n)
        (fun path v report _ hs => ih path v report hs) path 0 items report hs
    | _ => simp [analyseNested, Value.Nested]

namespace BoundObject

variable {inner : Option Analyser} {Q : BoundObject → Prop} {before field : String} {a : Analysed}

theorem analyseField_good (hflat : inner = none → ∀ o, Q o)
    (hdeep : ∀ analyser, inner = some analyser → Analyser.Decides start analyser Q)
    (hstart : start.Keeps start) (hs : start.Keeps a.session) :
    (analyseField builder inner before a field).IsGood ↔
      a.IsGood ∧ a.object.FieldPasses start Q field := by
  cases hv : a.object.slot? field with
  | none =>
    rw [analyseField_absent hv]
    simp [FieldPasses, hv]
  | some v =>
    have hresult := a.object.materializeSlot_result field v hstart hs
    have hs' := hs.evolves (a.object.materializeSlot_evolves builder_evolves field
      (a.object.outlet field).type v a.session)
    rw [analyseField_stored hv]
    simp only [FieldPasses, hv, Option.some.injEq, forall_eq']
    cases hok : ((a.object.outlet field).convert builder v start).error with
    | some e =>
      rw [hok] at hresult
      simp [Analysed.ofRead, hresult, Analysed.IsGood, Report.hasBad_addBad]
    | none =>
      rw [hok] at hresult
      cases inner with
      | none =>
        have nested := Value.nested_of_forall (hflat rfl) (a.object.outlet field).type.depth
          ((a.object.outlet field).convert builder v start).value
        simp [Analysed.ofRead, hresult, Analysed.IsGood, Analysed.hasBad_noted, nested]
      | some analyser =>
        -- The analysis goes on only below fields of object type; no object gets through others.
        by_cases typed : (a.object.outlet field).type.isObject = true
        · have nested := analyseNested_good (hdeep analyser rfl) (a.object.outlet field).type.depth
            (Report.joinPath before field) ((a.object.outlet field).convert builder v start).value
            (a.noted before field) hs'
          simp only [Analysed.ofRead, hresult, typed, if_true, Analysed.IsGood, Bool.and_eq_true,
            and_assoc, nested, Analysed.hasBad_noted, true_and]
        · have nested := Value.nested_of_fit (Q := Q) (n := (a.object.outlet field).type.depth)
            (Passage.convertLevel_fit (Bool.eq_false_iff.2 typed) hok)
          simp only [Analysed.ofRead, hresult, typed, Bool.false_eq_true, if_false,
            Analysed.IsGood, Analysed.hasBad_noted]
          exact ⟨fun h => ⟨h, trivial, nested⟩, And.left⟩

theorem analyseFields_good (hflat : inner = none → ∀ o, Q o)
    (hdeep : ∀ analyser, inner = some analyser → Analyser.Decides start analyser Q)
    (before : String) (hstart : start.Keeps start) {fields : List String}
    (distinct : fields.Nodup) (hs : start.Keeps a.session) :
    (fields.foldl (analyseField builder inner before) a).IsGood ↔
      a.IsGood ∧ ∀ field ∈ fields, a.object.FieldPasses start Q field := by
  induction fields generalizing a with
  | nil => simp
  | cons field rest ih =>
    obtain ⟨fresh, distinct⟩ := List.nodup_cons.1 distinct
    have changes := analyseField_changesOnly inner before a field
    have hs' := hs.evolves (analyseField_evolves builder_evolves
      (fun analyser h => (hdeep analyser h).evolves) before a field)
    refine (ih distinct hs').trans ?_
    rw [analyseField_good hflat hdeep hstart hs, List.forall_mem_cons, and_assoc]
    refine and_congr_right fun _ => and_congr_right fun _ => ?_
    refine forall_congr' fun name => forall_congr' fun hname => ?_
    have other : name ∉ [field] := by
      rw [List.mem_singleton]
      rintro rfl
      exact fresh hname
    exact (FieldPasses.congr changes other).symm

theorem forall_fieldPasses (o : BoundObject) :
    (∀ field ∈ Dict.names o.data, o.FieldPasses start Q field) ↔
      ∀ field, o.FieldPasses start Q field := by
  constructor
  · intro h field v hv
    exact h field (Dict.mem_names.2 (mem_keys_of_slot? hv)) v hv
  · intro h field _
    exact h field

/-- An analysis of everything below an object finds nothing bad exactly if the object passes. -/
theorem analyseDeep_decides (hstart : start.Keeps start) (depth : Nat) :
    Analyser.Decides start (analyseDeep builder depth) (Passes start depth) := by
  induction depth with
  | zero =>
    refine ⟨analyseDeep_evolves builder_evolves 0, fun o path report s hs => ?_⟩
    simp [analyseDeep, Analysed.IsGood, Passes]
  | succ depth ih =>
    refine ⟨analyseDeep_evolves builder_evolves _, fun o path report s hs => ?_⟩
    have deep : ∀ analyser, some (analyseDeep builder depth) = some analyser →
        Analyser.Decides start analyser (Passes start depth) := by
      rintro analyser ⟨⟩
      exact ih
    have fields := analyseFields_good (by simp) deep path hstart (Dict.nodup_names o.data)
      (a := ⟨s, o, report, true⟩) hs
    rw [analyseDeep, fields, forall_fieldPasses]
    simp [Analysed.IsGood, Passes]

theorem analyseFlat_complete (o : BoundObject) (s : Session) :
    (o.analyseFlat builder s).isComplete = true := by
  refine List.foldlRecOn (motive := fun a : Analysed => a.isComplete = true) _ _ rfl
    fun a h field _ => ?_
  unfold analyseField
  split
  · exact h
  · dsimp only
    split <;> exact h

theorem analyseFlat_good (hstart : start.Keeps start) (o : BoundObject) (hs : start.Keeps s) :
    (o.analyseFlat builder s).report.hasBad = false ↔
      ∀ field, o.FieldPasses start (fun _ => True) field := by
  have flat : ∀ analyser, none = some analyser →
      Analyser.Decides start analyser (fun _ => True) := by simp
  have fields := analyseFields_good (by simp) flat "" hstart (Dict.nodup_names o.data)
    (a := ⟨s, o, .empty, true⟩) hs
  rw [forall_fieldPasses] at fields
  exact (and_iff_right (o.analyseFlat_complete s)).symm.trans
    (fields.trans (and_iff_right ⟨rfl, rfl⟩))

end BoundObject

end LazyBinding
