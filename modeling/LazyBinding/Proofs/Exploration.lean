import LazyBinding.Proofs.Passing
import LazyBinding.Proofs.ProblemReports

/-!
# An analysis finds what there is to find

An object can be reached from another one over objects that sit in fields of object type, exactly as
many array levels down as the type has. An analysis of everything below an object reports the
problems of the objects that can be reached from it, each at its path, and no others.
-/
namespace LazyBinding

variable {start s t : Session} {p : Passage} {n : Nat} {v w : Value} {o o' : BoundObject}

/-- The object stands at a place, exactly `depth` array levels below the value at a path. -/
inductive Value.Holds (x : BoundObject) :
    (depth : Nat) → (path : String) → Value → (place : String) → Prop where
  | object {path} : Holds x 0 path (.ofObject x) path
  | item {depth path items i v place} (stands : items[i]? = some v)
      (inner : Holds x depth (Report.itemPath path i) v place) :
      Holds x (depth + 1) path (.array items) place

namespace BoundObject

/-- The object `x` sits at a place in a field of an object at `path`: the field is of object type,
its value converts, and `x` stands as many array levels down as the type has. -/
def SitsIn (start : Session) (o : BoundObject) (path field : String) (x : BoundObject)
    (place : String) : Prop :=
  ∃ v, o.slot? field = some v ∧ (o.outlet field).type.isObject = true ∧
    let converted := (o.outlet field).convert builder v start
    converted.error = none ∧
      converted.value.Holds x (o.outlet field).type.depth (Report.joinPath path field) place

/-- The object `x` at a place can be reached from one at `path` over as many objects as there are
levels between them. -/
inductive Reaches (start : Session) :
    (level : Nat) → (path : String) → BoundObject → (place : String) → BoundObject → Prop where
  | here (path : String) (o : BoundObject) : Reaches start 0 path o path o
  | inside {level path o field inner nested place x}
      (sits : o.SitsIn start path field nested inner)
      (further : Reaches start level inner nested place x) :
      Reaches start (level + 1) path o place x

/-- What is wrong with a stored field of an object at `path`: the table does not declare it, or its
value does not convert. -/
inductive FieldProblem (start : Session) (o : BoundObject) (path field : String) :
    Problem → Prop where
  | undeclared {v : Value} (stored : o.slot? field = some v)
      (absent : Dict.get? o.table field = none) :
      FieldProblem start o path field (.undeclared o.cls (Report.joinPath path field))
  | unconvertible {v : Value} {e : ConversionError} (stored : o.slot? field = some v)
      (fails : ((o.outlet field).convert builder v start).error = some e) :
      FieldProblem start o path field
        (.unconvertible o.cls (Report.joinPath path field) e.message)

/-- A problem of some object that can be reached over fewer objects than `depth`. -/
def ProblemBelow (start : Session) (depth : Nat) (path : String) (o : BoundObject)
    (problem : Problem) : Prop :=
  ∃ level < depth, ∃ place x, Reaches start level path o place x ∧
    ∃ field, x.FieldProblem start place field problem

/-- Some object can be reached over `depth` objects. -/
def IsDeeper (start : Session) (depth : Nat) (path : String) (o : BoundObject) : Prop :=
  ∃ place x, Reaches start depth path o place x

end BoundObject

/-! ### Objects inside values -/

/-- Some object at some place below the value satisfies a predicate. -/
def Value.HoldsSome (G : String → BoundObject → Prop) (depth : Nat) (path : String) (v : Value) :
    Prop :=
  ∃ place x, v.Holds x depth path place ∧ G place x

section

variable {G : String → BoundObject → Prop} {path : String}

theorem Value.holdsSome_object :
    (Value.ofObject o).HoldsSome G 0 path ↔ G path o := by
  constructor
  · rintro ⟨place, x, hx, hg⟩
    generalize hv : Value.ofObject o = v at hx
    cases hx
    obtain rfl : o = x := Value.ofObject_inj hv
    exact hg
  · intro hg
    exact ⟨path, o, .object, hg⟩

theorem Value.holdsSome_array {items : List Value} :
    (Value.array items).HoldsSome G (n + 1) path ↔
      ∃ i, ∃ v : Value, items[i]? = some v ∧ v.HoldsSome G n (Report.itemPath path i) := by
  constructor
  · rintro ⟨place, x, hx, hg⟩
    cases hx with
    | item stands inner => exact ⟨_, _, stands, place, x, inner, hg⟩
  · rintro ⟨i, v, stands, place, x, inner, hg⟩
    exact ⟨place, x, .item stands inner, hg⟩

theorem exists_getElem?_cons {α : Type} {a : α} {rest : List α} {Q : Nat → α → Prop} :
    (∃ i b, (a :: rest)[i]? = some b ∧ Q i b) ↔
      Q 0 a ∨ ∃ i b, rest[i]? = some b ∧ Q (i + 1) b := by
  constructor
  · rintro ⟨i, b, hb, hq⟩
    cases i with
    | zero =>
      cases hb
      exact Or.inl hq
    | succ i => exact Or.inr ⟨i, b, hb, hq⟩
  · rintro (hq | ⟨i, b, hb, hq⟩)
    · exact ⟨0, a, rfl, hq⟩
    · exact ⟨i + 1, b, hb, hq⟩

end

/-! ### What is wrong with a field -/

namespace BoundObject

variable {G : String → BoundObject → Prop} {F : String → BoundObject → Problem → Prop}
variable {path field : String} {problem : Problem}

/-- Some object that sits in the field satisfies a predicate. -/
def SomeIn (start : Session) (G : String → BoundObject → Prop) (path field : String)
    (o : BoundObject) : Prop :=
  ∃ place x, o.SitsIn start path field x place ∧ G place x

/-- What is wrong with the field, or with an object in it according to `F`. -/
def Wrong (start : Session) (F : String → BoundObject → Problem → Prop) (path field : String)
    (o : BoundObject) (problem : Problem) : Prop :=
  o.FieldProblem start path field problem ∨
    o.SomeIn start (fun place x => F place x problem) path field

theorem someIn_iff (hv : o.slot? field = some v) :
    o.SomeIn start G path field ↔ (o.outlet field).type.isObject = true ∧
      ((o.outlet field).convert builder v start).error = none ∧
      ((o.outlet field).convert builder v start).value.HoldsSome G
        (o.outlet field).type.depth (Report.joinPath path field) := by
  constructor
  · rintro ⟨place, x, ⟨w, hw, typed, converts, holds⟩, hg⟩
    cases hv.symm.trans hw
    exact ⟨typed, converts, place, x, holds, hg⟩
  · rintro ⟨typed, converts, place, x, holds, hg⟩
    exact ⟨place, x, ⟨v, hv, typed, converts, holds⟩, hg⟩

theorem not_someIn (hv : o.slot? field = none) : ¬ o.SomeIn start G path field := by
  rintro ⟨place, x, ⟨w, hw, -⟩, -⟩
  cases hv.symm.trans hw

theorem fieldProblem_iff (hv : o.slot? field = some v) :
    o.FieldProblem start path field problem ↔
      (Dict.get? o.table field = none ∧
        problem = .undeclared o.cls (Report.joinPath path field)) ∨
      ∃ e, ((o.outlet field).convert builder v start).error = some e ∧
        problem = .unconvertible o.cls (Report.joinPath path field) e.message := by
  constructor
  · intro h
    cases h with
    | undeclared stored absent => exact Or.inl ⟨absent, rfl⟩
    | unconvertible stored fails =>
      cases hv.symm.trans stored
      exact Or.inr ⟨_, fails, rfl⟩
  · rintro (⟨absent, rfl⟩ | ⟨e, fails, rfl⟩)
    · exact .undeclared hv absent
    · exact .unconvertible hv fails

theorem not_fieldProblem (hv : o.slot? field = none) :
    ¬ o.FieldProblem start path field problem := by
  intro h
  cases h with
  | undeclared stored => cases hv.symm.trans stored
  | unconvertible stored => cases hv.symm.trans stored

theorem not_wrong (hv : o.slot? field = none) : ¬ o.Wrong start F path field problem := by
  rintro (h | h)
  · exact not_fieldProblem hv h
  · exact not_someIn hv h

theorem someIn_congr {fields : List String} (changes : o.ChangesOnly fields o')
    (fresh : field ∉ fields) :
    o.SomeIn start G path field ↔ o'.SomeIn start G path field := by
  unfold SomeIn SitsIn
  rw [changes.slot? field fresh, changes.revises.outlet]

theorem fieldProblem_congr {fields : List String} (changes : o.ChangesOnly fields o')
    (fresh : field ∉ fields) :
    o.FieldProblem start path field problem ↔ o'.FieldProblem start path field problem := by
  have slot := changes.slot? field fresh
  cases hv : o.slot? field with
  | none => exact iff_of_false (not_fieldProblem hv) (not_fieldProblem (slot.trans hv))
  | some v =>
    rw [fieldProblem_iff hv, fieldProblem_iff (slot.trans hv), changes.revises.outlet,
      changes.revises.table, changes.revises.cls]

theorem wrong_congr {fields : List String} (changes : o.ChangesOnly fields o')
    (fresh : field ∉ fields) :
    o.Wrong start F path field problem ↔ o'.Wrong start F path field problem :=
  or_congr (fieldProblem_congr changes fresh) (someIn_congr changes fresh)

theorem problemBelow_succ (depth : Nat) :
    o.ProblemBelow start (depth + 1) path problem ↔
      ∃ field, o.Wrong start (ProblemBelow start depth) path field problem := by
  constructor
  · rintro ⟨level, hlevel, place, x, reaches, field, hx⟩
    cases reaches with
    | here => exact ⟨field, Or.inl hx⟩
    | inside sits further =>
      exact ⟨_, Or.inr ⟨_, _, sits, _, Nat.lt_of_succ_lt_succ hlevel, place, x, further, field, hx⟩⟩
  · rintro ⟨field, hx | ⟨inner, nested, sits, level, hlevel, place, x, further, field', hx⟩⟩
    · exact ⟨0, Nat.succ_pos depth, path, o, .here path o, field, hx⟩
    · exact ⟨level + 1, Nat.succ_lt_succ hlevel, place, x, .inside sits further, field', hx⟩

theorem not_problemBelow_zero : ¬ o.ProblemBelow start 0 path problem := by
  rintro ⟨level, hlevel, -⟩
  exact Nat.not_lt_zero level hlevel

theorem isDeeper_zero (path : String) (o : BoundObject) : IsDeeper start 0 path o :=
  ⟨path, o, .here path o⟩

theorem isDeeper_succ (depth : Nat) :
    IsDeeper start (depth + 1) path o ↔
      ∃ field, o.SomeIn start (IsDeeper start depth) path field := by
  constructor
  · rintro ⟨place, x, reaches⟩
    cases reaches with
    | inside sits further => exact ⟨_, _, _, sits, place, x, further⟩
  · rintro ⟨field, inner, nested, sits, place, x, further⟩
    exact ⟨place, x, .inside sits further⟩

theorem Reaches.isDeeper {level depth : Nat} {place : String} {x : BoundObject}
    (h : Reaches start level path o place x) (hd : depth ≤ level) :
    IsDeeper start depth path o := by
  induction h generalizing depth with
  | here path o =>
    obtain rfl := Nat.le_zero.1 hd
    exact isDeeper_zero path o
  | inside sits _ ih =>
    cases depth with
    | zero => exact isDeeper_zero _ _
    | succ depth => exact (isDeeper_succ depth).2 ⟨_, _, _, sits, ih (Nat.le_of_succ_le_succ hd)⟩

end BoundObject

/-! ### What an analysis adds to a report -/

/-- An analysis that adds to a report the problems that `F` tells of each object, and meets the limit
exactly below the objects that `D` tells. -/
structure Analyser.Explores (start : Session) (inner : Analyser)
    (F : String → BoundObject → Problem → Prop) (D : String → BoundObject → Prop) : Prop where
  evolves : inner.Evolves
  adds : ∀ o path (report : Report) {s}, start.Keeps s →
    report.Adds (inner o path report s).report (F path o)
  limit : ∀ o path report {s}, start.Keeps s →
    ((inner o path report s).isComplete = false ↔ D path o)

section

variable {F : String → BoundObject → Problem → Prop} {D : String → BoundObject → Prop}

theorem analyseItems_explores {item : String → Value → Report → Session → AnalysedValue}
    {P : String → Value → Problem → Prop} {L : String → Value → Prop}
    (he : ∀ path v report (s : Session), s.Evolves (item path v report s).session)
    (hi : ∀ path v report {s}, start.Keeps s →
      report.Adds (item path v report s).report (P path v) ∧
        ((item path v report s).isComplete = false ↔ L path v))
    (path : String) (index : Nat) (items : List Value) (report : Report) (hs : start.Keeps s) :
    report.Adds (analyseItems item path index items report s).report
        (fun x => ∃ i v, items[i]? = some v ∧ P (Report.itemPath path (index + i)) v x) ∧
      ((analyseItems item path index items report s).isComplete = false ↔
        ∃ i v, items[i]? = some v ∧ L (Report.itemPath path (index + i)) v) := by
  induction items generalizing index report s with
  | nil =>
    constructor
    · exact (Report.Adds.nothing report).congr fun x => by simp
    · simp [analyseItems]
  | cons v rest ih =>
    have first := hi (Report.itemPath path index) v report hs
    have others := ih (index + 1) (item (Report.itemPath path index) v report s).report
      (hs.evolves (he (Report.itemPath path index) v report s))
    have shift : ∀ i, index + 1 + i = index + (i + 1) := fun i => by omega
    simp only [shift] at others
    constructor
    · refine (first.1.trans others.1).congr fun x => ?_
      exact (exists_getElem?_cons (Q := fun i v => P (Report.itemPath path (index + i)) v x)).symm
    · rw [exists_getElem?_cons (Q := fun i v => L (Report.itemPath path (index + i)) v),
        ← others.2]
      exact Bool.and_eq_false_iff.trans (or_congr first.2 Iff.rfl)

theorem nothing_explored (report : Report) {path : String}
    (hv : ∀ G : String → BoundObject → Prop, ¬ v.HoldsSome G n path) :
    report.Adds report (fun problem => v.HoldsSome (fun place x => F place x problem) n path) ∧
      (true = false ↔ v.HoldsSome D n path) := by
  constructor
  · exact (Report.Adds.nothing report).congr fun x => (iff_false_intro (hv _)).symm
  · exact iff_of_false Bool.noConfusion (hv D)

theorem analyseNested_explores {inner : Analyser} (hi : Analyser.Explores start inner F D) (n : Nat)
    (path : String) (v : Value) (report : Report) (hs : start.Keeps s) :
    report.Adds (analyseNested inner n path v report s).report
        (fun problem => v.HoldsSome (fun place x => F place x problem) n path) ∧
      ((analyseNested inner n path v report s).isComplete = false ↔ v.HoldsSome D n path) := by
  induction n generalizing path v report s with
  | zero =>
    cases v with
    | object schema cls table data =>
      have hobject : ∀ G : String → BoundObject → Prop,
          (Value.object schema cls table data).HoldsSome G 0 path ↔
            G path ⟨schema, cls, table, data⟩ :=
        fun G => Value.holdsSome_object (o := ⟨schema, cls, table, data⟩)
      constructor
      · exact (hi.adds ⟨schema, cls, table, data⟩ path report hs).congr fun x =>
          (hobject fun place y => F place y x).symm
      · exact (hi.limit ⟨schema, cls, table, data⟩ path report hs).trans (hobject D).symm
    | _ =>
      apply nothing_explored report
      rintro G ⟨place, x, holds, -⟩
      cases holds
  | succ n ih =>
    cases v with
    | array items =>
      have all := analyseItems_explores
        (analyseNested_evolves hi.evolves n) (fun path v report _ hs => ih path v report hs) path 0
        items report hs
      simp only [Nat.zero_add] at all
      constructor
      · exact all.1.congr fun x => Value.holdsSome_array.symm
      · exact all.2.trans Value.holdsSome_array.symm
    | _ =>
      apply nothing_explored report
      rintro G ⟨place, x, holds, -⟩
      cases holds

end

namespace BoundObject

variable {F : String → BoundObject → Problem → Prop} {D : String → BoundObject → Prop}
variable {inner : Analyser} {path field : String} {a : Analysed}

theorem noted_adds (a : Analysed) (path field : String) :
    a.report.Adds (a.noted path field) fun x => Dict.get? a.object.table field = none ∧
      x = .undeclared a.object.cls (Report.joinPath path field) := by
  unfold Analysed.noted
  cases h : Dict.get? a.object.table field with
  | none => exact (a.report.adds_missing _ _).congr fun x => (and_iff_right rfl).symm
  | some type => exact (Report.Adds.nothing a.report).congr fun x => by simp

theorem analyseField_explores (hi : Analyser.Explores start inner F D)
    (hstart : start.Keeps start) (path field : String) (hs : start.Keeps a.session) :
    a.report.Adds (analyseField builder (some inner) path a field).report
        (a.object.Wrong start F path field) ∧
      ((analyseField builder (some inner) path a field).isComplete = false ↔
        a.isComplete = false ∨ a.object.SomeIn start D path field) := by
  cases hv : a.object.slot? field with
  | none =>
    rw [analyseField_absent hv]
    constructor
    · exact (Report.Adds.nothing a.report).congr fun x => (iff_false_intro (not_wrong hv)).symm
    · simp [not_someIn hv]
  | some v =>
    have hresult := a.object.materializeSlot_result field v hstart hs
    have hs' := hs.evolves (a.object.materializeSlot_evolves builder_evolves field
      (a.object.outlet field).type v a.session)
    have noted := noted_adds a path field
    have hwrong : ∀ x, a.object.Wrong start F path field x ↔
        ((Dict.get? a.object.table field = none ∧
            x = .undeclared a.object.cls (Report.joinPath path field)) ∨
          ∃ e, ((a.object.outlet field).convert builder v start).error = some e ∧
            x = .unconvertible a.object.cls (Report.joinPath path field) e.message) ∨
        a.object.SomeIn start (fun place y => F place y x) path field :=
      fun x => or_congr_left (fieldProblem_iff hv)
    rw [analyseField_stored hv, someIn_iff hv]
    cases hok : ((a.object.outlet field).convert builder v start).error with
    | some e =>
      rw [hok] at hresult
      have bad := Report.adds_bad (a.noted path field) a.object.cls (Report.joinPath path field)
        e.message
      rw [Analysed.ofRead_failed hresult, (materializeSlot_revises builder _ _ _ _ _).cls]
      constructor
      · refine (noted.trans bad).congr fun x => ?_
        rw [hwrong, someIn_iff hv, hok]
        simp
      · simp
    | none =>
      rw [hok] at hresult
      by_cases typed : (a.object.outlet field).type.isObject = true
      · have nested := analyseNested_explores hi (a.object.outlet field).type.depth
          (Report.joinPath path field) ((a.object.outlet field).convert builder v start).value
          (a.noted path field) hs'
        rw [Analysed.ofRead_nested hresult typed]
        constructor
        · refine (noted.trans nested.1).congr fun x => ?_
          rw [hwrong, someIn_iff hv, hok]
          simp [typed]
        · rw [Bool.and_eq_false_iff, nested.2]
          simp [typed]
      · rw [Analysed.ofRead_leaf hresult (Bool.eq_false_iff.2 typed)]
        constructor
        · refine noted.congr fun x => ?_
          rw [hwrong, someIn_iff hv, hok]
          simp [typed]
        · simp [typed]

theorem analyseFields_explores (hi : Analyser.Explores start inner F D)
    (hstart : start.Keeps start) (path : String) {fields : List String} (distinct : fields.Nodup)
    (hs : start.Keeps a.session) :
    a.report.Adds (fields.foldl (analyseField builder (some inner) path) a).report
        (fun x => ∃ field ∈ fields, a.object.Wrong start F path field x) ∧
      ((fields.foldl (analyseField builder (some inner) path) a).isComplete = false ↔
        a.isComplete = false ∨ ∃ field ∈ fields, a.object.SomeIn start D path field) := by
  have evolves : ∀ analyser, some inner = some analyser → analyser.Evolves := by
    rintro analyser ⟨⟩
    exact hi.evolves
  induction fields generalizing a with
  | nil =>
    constructor
    · exact (Report.Adds.nothing a.report).congr fun x => by simp
    · simp
  | cons field rest ih =>
    obtain ⟨fresh, distinct⟩ := List.nodup_cons.1 distinct
    have first := analyseField_explores hi hstart path field hs
    have changes := analyseField_changesOnly (some inner) path a field
    have hs' := hs.evolves (analyseField_evolves builder_evolves evolves path a field)
    have others := ih distinct hs'
    -- The fields that are still to come hold what they held before.
    have other : ∀ name ∈ rest, name ∉ [field] := by
      intro name hname same
      rw [List.mem_singleton] at same
      exact fresh (same ▸ hname)
    constructor
    · refine (first.1.trans others.1).congr fun x => ?_
      rw [List.exists_mem_cons_iff]
      refine or_congr_right (exists_congr fun name => and_congr_right fun hname => ?_)
      exact (wrong_congr changes (other name hname)).symm
    · rw [List.foldl_cons, others.2, first.2, List.exists_mem_cons_iff, or_assoc]
      refine or_congr_right (or_congr_right ?_)
      refine exists_congr fun name => and_congr_right fun hname => ?_
      exact (someIn_congr changes (other name hname)).symm

theorem exists_mem_names {Q : String → Prop} (o : BoundObject)
    (h : ∀ field, o.slot? field = none → ¬ Q field) :
    (∃ field ∈ Dict.names o.data, Q field) ↔ ∃ field, Q field := by
  constructor
  · rintro ⟨field, -, hq⟩
    exact ⟨field, hq⟩
  · rintro ⟨field, hq⟩
    refine ⟨field, Dict.mem_names.2 ?_, hq⟩
    by_contra absent
    exact h field ((Dict.get?_eq_none_iff _ _).2 absent) hq

/-- An analysis of everything below an object, down to a depth, adds the problems of all objects that
can be reached over fewer objects. It is complete if none can be reached over as many. -/
theorem analyseDeep_explores (hstart : start.Keeps start) (depth : Nat) :
    Analyser.Explores start (analyseDeep builder depth)
      (fun path o => o.ProblemBelow start depth path) (IsDeeper start depth) := by
  induction depth with
  | zero =>
    constructor
    · exact analyseDeep_evolves builder_evolves 0
    · intro o path report s _
      exact (Report.Adds.nothing report).congr fun x => (iff_false_intro not_problemBelow_zero).symm
    · intro o path report s _
      exact iff_of_true rfl (isDeeper_zero path o)
  | succ depth ih =>
    constructor
    · exact analyseDeep_evolves builder_evolves (depth + 1)
    · intro o path report s hs
      have fields := analyseFields_explores ih hstart path (Dict.nodup_names o.data)
        (a := ⟨s, o, report, true⟩) hs
      refine fields.1.congr fun x => ?_
      rw [problemBelow_succ]
      exact exists_mem_names o fun field hv => not_wrong hv
    · intro o path report s hs
      have fields := analyseFields_explores ih hstart path (Dict.nodup_names o.data)
        (a := ⟨s, o, report, true⟩) hs
      refine fields.2.trans ?_
      rw [isDeeper_succ, exists_mem_names o fun field hv => not_someIn hv]
      exact or_iff_right Bool.noConfusion

/-- A problem of some object that can be reached from the object, with its path from there. -/
def HasProblem (s : Session) (o : BoundObject) (problem : Problem) : Prop :=
  ∃ level place x, Reaches s level "" o place x ∧ ∃ field, x.FieldProblem s place field problem

theorem analyze_explores (hs : s.Keeps s) (o : BoundObject) :
    match (o.analyze true s).result with
    | .error e => e = .endless o.cls ∧ o.IsDeeper s levelLimit ""
    | .ok report => ¬ o.IsDeeper s levelLimit "" ∧ Report.empty.Adds report (o.HasProblem s) := by
  have explores := analyseDeep_explores hs levelLimit
  have adds := explores.adds o "" .empty hs
  have limit := explores.limit o "" .empty hs
  unfold analyze analyzeWith
  rw [if_pos rfl]
  generalize analyseDeep builder levelLimit o "" .empty s = found at adds limit ⊢
  obtain ⟨s', o', report, complete⟩ := found
  cases complete with
  | false => exact ⟨rfl, limit.1 rfl⟩
  | true =>
    have shallow : ¬ o.IsDeeper s levelLimit "" := fun h => Bool.noConfusion (limit.2 h)
    refine ⟨shallow, adds.congr fun x => ?_⟩
    constructor
    · rintro ⟨level, -, place, x, reaches, hx⟩
      exact ⟨level, place, x, reaches, hx⟩
    · rintro ⟨level, place, x, reaches, hx⟩
      refine ⟨level, ?_, place, x, reaches, hx⟩
      by_contra far
      exact shallow (reaches.isDeeper (Nat.le_of_not_lt far))

/-- An analysis of everything below an object ends with a report unless objects lie too deep to be
held. The report lists an undeclared field at a path exactly if an object that can be reached stores
one there. It lists a field at a path as bad, with a message, only if one there fails to convert with
that message, and whenever one there fails it lists the path with some message. -/
theorem analysis_exact (registries : List (Registry × Bool))
    (operations : List Session.Operation) (o : BoundObject) :
    let s := (Session.fresh registries).run operations
    ((∃ report, (o.analyze true s).result = .ok report) ↔
      ∀ level place x, Reaches s level "" o place x → level < levelLimit) ∧
    ∀ report, (o.analyze true s).result = .ok report →
      (∀ cls path, report.Lists (.undeclared cls path) ↔
        o.HasProblem s (.undeclared cls path)) ∧
      (∀ cls path message, report.Lists (.unconvertible cls path message) →
        o.HasProblem s (.unconvertible cls path message)) ∧
      ∀ cls path message, o.HasProblem s (.unconvertible cls path message) →
        ∃ kept, report.Lists (.unconvertible cls path kept) := by
  intro s
  have hs : s.Keeps s := ((Session.keeps_fresh registries).run operations).self
  have explores := o.analyze_explores hs
  constructor
  · constructor
    · rintro ⟨report, hreport⟩ level place x reaches
      rw [hreport] at explores
      by_contra far
      exact explores.1 (reaches.isDeeper (Nat.le_of_not_lt far))
    · intro shallow
      cases hresult : (o.analyze true s).result with
      | ok report => exact ⟨report, rfl⟩
      | error e =>
        rw [hresult] at explores
        obtain ⟨-, place, x, reaches⟩ := explores
        exact absurd (shallow levelLimit place x reaches) (Nat.lt_irrefl _)
  · intro report hreport
    rw [hreport] at explores
    obtain ⟨-, adds⟩ := explores
    have sound : ∀ x, report.Lists x → o.HasProblem s x := fun x hx =>
      (adds.sound x hx).resolve_left (Report.not_lists_empty x)
    refine ⟨fun cls path => ⟨sound _, fun h => ?_⟩, fun cls path message => sound _,
      fun cls path message h => ?_⟩
    · obtain ⟨y, same, hy⟩ := adds.complete _ (Or.inr h)
      cases y with
      | undeclared c p =>
        obtain ⟨rfl, rfl⟩ := same
        exact hy
      | unconvertible => cases same
    · obtain ⟨y, same, hy⟩ := adds.complete _ (Or.inr h)
      cases y with
      | undeclared => cases same
      | unconvertible c p m =>
        obtain ⟨rfl, rfl⟩ := same
        exact ⟨m, hy⟩

end BoundObject

namespace LinkExample

/-- A class whose objects may hold one of their kind. -/
def registry : Registry where
  declared := [⟨⟨"Link"⟩, none, [.field "next" "Link", .field "size" "int"], none⟩]
  wellFormed := by decide
  distinct := by decide

def session : Session := (Session.fresh [(registry, false)]).run []

def table : FieldTable := [("next", ⟨.object ⟨"Link"⟩, 0⟩), ("size", ⟨.primitive .int, 0⟩)]

/-- An object that holds another one with a field that its class does not declare. -/
def stray : BoundObject :=
  ⟨0, ⟨"Link"⟩, table, [("next", .object 0 ⟨"Link"⟩ table [("colour", .null)])]⟩

theorem compiled : ((Session.fresh [(registry, false)]).table 0 ⟨"Link"⟩).2 = .ok table := by
  have made : (Attempt.first registry .empty ⟨"Link"⟩).result = .ok [⟨"Link"⟩] := by rfl
  refine SchemaCache.compile_alone (by rfl) made ?_ (by rfl)
  rw [List.forall_mem_singleton]
  rfl

theorem made (data : Dict String Value) :
    (BoundObject.make 0 ⟨"Link"⟩ data session).2 = .ok ⟨0, ⟨"Link"⟩, table, data⟩ := by
  have hstart := Session.keeps_fresh [(registry, false)]
  have hookless : ((Session.fresh [(registry, false)]).registry 0).hook? ⟨"Link"⟩ = none := by rfl
  exact (BoundObject.builder_hookless hstart (hstart.run []) hookless).2 ⟨table, compiled, rfl⟩

end LinkExample

open LinkExample in
theorem stray_analysis_exact :
    let report : Report := ⟨[(⟨"Link"⟩, ["next.colour"])], []⟩
    (stray.analyze true session).result = .ok report ∧
      stray.HasProblem session (.undeclared ⟨"Link"⟩ "next.colour") ∧
      ∀ message, ¬ stray.HasProblem session (.unconvertible ⟨"Link"⟩ "size" message) := by
  intro report
  have analysed : (stray.analyze true session).result = .ok report := by rfl
  obtain ⟨undeclared, -, unconvertible⟩ :=
    (BoundObject.analysis_exact [(registry, false)] [] stray).2 report analysed
  refine ⟨analysed, (undeclared _ _).1 ⟨["next.colour"], by simp [report]⟩, ?_⟩
  intro message h
  obtain ⟨kept, listed⟩ := unconvertible _ _ _ h
  exact Sorted.not_lists_nil listed

end LazyBinding
