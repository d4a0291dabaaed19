import LazyBinding.Proofs.Conformity
import LazyBinding.Proofs.WellKeyed

/-!
# Validation settles an object

A validation converts the objects that it walks through, after hooks may have stored anything in
them. Where it finds nothing wrong, every field of every object in the tree is declared and holds a
value that conforms to its type.
-/
namespace LazyBinding

variable {start s t : Session} {p : Passage} {n : Nat} {v w : Value} {o o' x : BoundObject}

/-- An analysis that has been complete and has found nothing wrong. -/
def Analysed.IsSpotless (a : Analysed) : Prop := a.isComplete = true ∧ a.report.hasProblems = false

theorem Report.hasProblems_addMissing (r : Report) (cls : ClassPath) (path : String) :
    (r.addMissing cls path).hasProblems = true := by
  unfold hasProblems addMissing
  cases r.missing with
  | nil => rfl
  | cons entry rest =>
    simp only [Sorted.update]
    split
    · rfl
    · split <;> rfl

theorem Report.hasProblems_addBad (r : Report) (cls : ClassPath) (path message : String) :
    (r.addBad cls path message).hasProblems = true := by
  have bad : (r.addBad cls path message).hasBad = true := r.hasBad_addBad cls path message
  unfold hasBad at bad
  rw [hasProblems, bad, Bool.or_true]

namespace BoundObject

/-- What a field of a settled object holds: a value that conforms to the declared type of the field
and whose objects satisfy a predicate. -/
structure HoldsSettled (start : Session) (Q : BoundObject → Prop) (o : BoundObject)
    (field : String) (v : Value) : Prop where
  declared : o.hasDeclared field = true
  conforms : Conforms (start.registry o.schema) (o.outlet field).type (o.outlet field).type.depth v
  nested : v.Nested Q (o.outlet field).type.depth

/-- Nothing is left to convert or to report in the object and in the objects below, which stand on
fewer levels than `depth`. -/
def Settled (start : Session) : (depth : Nat) → BoundObject → Prop
  | 0, _ => False
  | depth + 1, o =>
    ∀ field v, o.slot? field = some v → o.HoldsSettled start (Settled start depth) field v

theorem HoldsSettled.revised {Q : BoundObject → Prop} {field : String} (revises : o.Revises o')
    (h : o.HoldsSettled start Q field v) : o'.HoldsSettled start Q field v := by
  obtain ⟨data, rfl⟩ := revises
  exact ⟨h.declared, h.conforms, h.nested⟩

end BoundObject

/-! ### A spotless analysis settles -/

/-- An analysis that leaves objects with a property where it finds nothing wrong. -/
structure Analyser.Settles (start : Session) (inner : Analyser) (Q : BoundObject → Prop) :
    Prop where
  evolves : inner.Evolves
  revises : ∀ (o : BoundObject) path report s, o.Revises (inner o path report s).object
  settles : ∀ o path report {s}, start.Keeps s → (inner o path report s).IsSpotless →
    report.hasProblems = false ∧ Q (inner o path report s).object

section

variable {inner : Analyser} {Q : BoundObject → Prop}

theorem analyseItems_settles {P : Value → Prop}
    {item : String → Value → Report → Session → AnalysedValue}
    (he : ∀ path v report (s : Session), s.Evolves (item path v report s).session)
    (hi : ∀ path v report {s}, start.Keeps s → (item path v report s).isComplete = true →
      (item path v report s).report.hasProblems = false →
        report.hasProblems = false ∧ P (item path v report s).value)
    (path : String) (index : Nat) (items : List Value) (report : Report) (hs : start.Keeps s)
    (complete : (analyseItems item path index items report s).isComplete = true)
    (clean : (analyseItems item path index items report s).report.hasProblems = false) :
    report.hasProblems = false ∧
      ∀ v ∈ (analyseItems item path index items report s).items, P v := by
  induction items generalizing index report s with
  | nil =>
    constructor
    · exact clean
    · simp [analyseItems]
  | cons v rest ih =>
    obtain ⟨complete, completes⟩ := Bool.and_eq_true_iff.1 complete
    have hs' := hs.evolves (he (Report.itemPath path index) v report s)
    obtain ⟨clean, others⟩ := ih (index + 1) _ hs' completes clean
    obtain ⟨clean, first⟩ := hi (Report.itemPath path index) v report hs complete clean
    exact ⟨clean, List.forall_mem_cons.2 ⟨first, others⟩⟩

theorem analyseNested_settles (hi : Analyser.Settles start inner Q) (n : Nat) (path : String)
    (v : Value) (report : Report) (hs : start.Keeps s)
    (complete : (analyseNested inner n path v report s).isComplete = true)
    (clean : (analyseNested inner n path v report s).report.hasProblems = false) :
    report.hasProblems = false ∧ (analyseNested inner n path v report s).value.Nested Q n := by
  induction n generalizing path v report s with
  | zero =>
    cases v with
    | object schema cls table data =>
      exact hi.settles ⟨schema, cls, table, data⟩ path report hs ⟨complete, clean⟩
    | _ => exact ⟨clean, trivial⟩
  | succ n ih =>
    cases v with
    | array items =>
      exact analyseItems_settles (analyseNested_evolves hi.evolves n)
        (fun path v report _ hs => ih path v report hs) path 0 items report hs complete clean
    | _ => exact ⟨clean, trivial⟩

theorem Conforms.analyseNested {r : Registry} {type : FieldType}
    (revises : ∀ (o : BoundObject) path report s, o.Revises (inner o path report s).object)
    (h : Conforms r type n v) (path : String) (report : Report) (s : Session) :
    Conforms r type n (LazyBinding.analyseNested inner n path v report s).value := by
  induction n generalizing v path report s with
  | zero =>
    cases v with
    | object schema cls table data =>
      obtain ⟨after, hafter⟩ := revises ⟨schema, cls, table, data⟩ path report s
      obtain ⟨-, _, base, descends⟩ := of_object (o := ⟨schema, cls, table, data⟩) h
      simp only [LazyBinding.analyseNested, hafter]
      exact .object base descends
    | _ => exact h
  | succ n ih =>
    cases h with
    | null => exact .null
    | array items_conform =>
      exact .array (analyseItems_forall (fun path v report s h => ih h path report s) path 0
        report s items_conform)

end

namespace BoundObject

variable {inner : Analyser} {Q : BoundObject → Prop} {field : String} {a : Analysed}

theorem noted_clean {before : String} (clean : (a.noted before field).hasProblems = false) :
    a.object.hasDeclared field = true ∧ a.report.hasProblems = false := by
  unfold Analysed.noted at clean
  unfold hasDeclared Dict.has
  split at clean
  · rw [Report.hasProblems_addMissing] at clean
    cases clean
  · next declared =>
    constructor
    · rwa [Option.isNone_iff_eq_none, ← ne_eq, ← Option.isSome_iff_ne_none] at declared
    · exact clean

/-- If nothing is wrong once a field has been analysed, nothing was wrong before, and the field is
settled. -/
theorem analyseField_settles (instances : start.LeavesInstances) (hstart : start.Keeps start)
    (hi : Analyser.Settles start inner Q) (path field : String) (hs : start.Keeps a.session)
    (spotless : (analyseField builder (some inner) path a field).IsSpotless) :
    a.IsSpotless ∧ ∀ v,
      (analyseField builder (some inner) path a field).object.slot? field = some v →
        a.object.HoldsSettled start Q field v := by
  cases hv : a.object.slot? field with
  | none =>
    rw [analyseField_absent hv] at spotless ⊢
    refine ⟨spotless, fun v stored => ?_⟩
    cases hv.symm.trans stored
  | some v =>
    have hs' := hs.evolves ((a.object.outlet field).convert_evolves builder_evolves v a.session)
    rw [analyseField_stored hv] at spotless ⊢
    rcases a.object.materializeSlot_cases field v a.session with ⟨e, -, hread⟩ | ⟨hok, hread⟩
    · rw [hread, Analysed.ofRead_failed rfl] at spotless
      cases (Report.hasProblems_addBad _ _ _ _).symm.trans spotless.2
    · have conforms := Passage.convertLevel_conforms
        (Passage.makesInstances_of_session instances _ _ v) hstart hs hok
      rw [hread] at spotless ⊢
      change Conforms _ _ _ ((a.object.outlet field).convert builder v a.session).value at conforms
      generalize (a.object.outlet field).convert builder v a.session = converted
        at spotless conforms hs' ⊢
      by_cases typed : (a.object.outlet field).type.isObject = true
      · rw [Analysed.ofRead_nested rfl typed] at spotless ⊢
        obtain ⟨complete, clean⟩ := spotless
        obtain ⟨complete, completes⟩ := Bool.and_eq_true_iff.1 complete
        obtain ⟨clean, nested⟩ := analyseNested_settles hi (a.object.outlet field).type.depth
          (Report.joinPath path field) converted.value (a.noted path field) hs' completes clean
        obtain ⟨declared, clean⟩ := noted_clean clean
        refine ⟨⟨complete, clean⟩, fun w stored => ?_⟩
        rw [slot?_put] at stored
        cases stored
        exact ⟨declared, conforms.analyseNested hi.revises _ _ _, nested⟩
      · have typed : (a.object.outlet field).type.isObject = false := Bool.eq_false_iff.2 typed
        rw [Analysed.ofRead_leaf rfl typed] at spotless ⊢
        obtain ⟨complete, clean⟩ := spotless
        obtain ⟨declared, clean⟩ := noted_clean clean
        refine ⟨⟨complete, clean⟩, fun w stored => ?_⟩
        rw [slot?_put] at stored
        cases stored
        exact ⟨declared, conforms, Value.nested_of_fit (conforms.fit typed)⟩

theorem analyseFields_settles (instances : start.LeavesInstances) (hstart : start.Keeps start)
    (hi : Analyser.Settles start inner Q) (path : String) (fields done : List String)
    {a : Analysed} (hs : start.Keeps a.session)
    (before : a.IsSpotless → ∀ name ∈ done, ∀ v, a.object.slot? name = some v →
      a.object.HoldsSettled start Q name v)
    (spotless : (fields.foldl (analyseField builder (some inner) path) a).IsSpotless) :
    a.IsSpotless ∧ ∀ name ∈ done ++ fields, ∀ v,
      (fields.foldl (analyseField builder (some inner) path) a).object.slot? name = some v →
        (fields.foldl (analyseField builder (some inner) path) a).object.HoldsSettled start Q
          name v := by
  have evolves : ∀ analyser, some inner = some analyser → analyser.Evolves := by
    rintro analyser ⟨⟩
    exact hi.evolves
  induction fields generalizing done a with
  | nil =>
    rw [List.append_nil]
    exact ⟨spotless, before spotless⟩
  | cons field rest ih =>
    have hs' := hs.evolves (analyseField_evolves builder_evolves evolves path a field)
    have changes := analyseField_changesOnly (some inner) path a field
    have first := analyseField_settles instances hstart hi path field hs
    obtain ⟨spotless', all⟩ := ih (done ++ [field]) hs' (fun spotless' name hname v stored => by
      obtain ⟨spotless, settled⟩ := first spotless'
      refine HoldsSettled.revised changes.revises ?_
      by_cases heq : name = field
      · subst heq
        exact settled v stored
      · rw [changes.slot? name (by simpa using heq)] at stored
        exact before spotless name (by simpa [heq] using hname) v stored) spotless
    rw [List.append_assoc] at all
    exact ⟨(first spotless').1, all⟩

/-- An analysis of everything below an object that finds nothing wrong leaves the object settled. -/
theorem analyseDeep_settles (instances : start.LeavesInstances) (hstart : start.Keeps start)
    (depth : Nat) :
    Analyser.Settles start (analyseDeep builder depth) (Settled start depth) := by
  induction depth with
  | zero =>
    constructor
    · exact analyseDeep_evolves builder_evolves 0
    · exact analyseDeep_revises builder 0
    · intro o path report s _ spotless
      cases spotless.1
  | succ depth ih =>
    constructor
    · exact analyseDeep_evolves builder_evolves (depth + 1)
    · exact analyseDeep_revises builder (depth + 1)
    · intro o path report s hs spotless
      obtain ⟨⟨-, clean⟩, all⟩ := analyseFields_settles instances hstart ih path
        (Dict.names o.data) [] (a := ⟨s, o, report, true⟩) hs (by simp) spotless
      refine ⟨clean, fun field v stored => all field ?_ v stored⟩
      have changes := analyseFields_changesOnly (some (analyseDeep builder depth)) path
        (Dict.names o.data) ⟨s, o, report, true⟩
      rw [List.nil_append, Dict.mem_names, ← changes.keys]
      exact mem_keys_of_slot? stored

end BoundObject

end LazyBinding
