import LazyBinding.Proofs.Exploration
import LazyBinding.Object.Place
import Mathlib

/-!
# Where a field stands

A field below an object is given by the way to its owner, a field and indices at each step, and by
its name. A report writes this as one text, with dots and brackets that names may have as well. Two
fields are written alike only if, where their ways part, a name reads like a way through the field
beside it.
-/
namespace LazyBinding

variable {start s : Session} {o x y : BoundObject} {n : Nat} {v : Value}

/-- A step down to an object that stands in a field, at some indices of its arrays. -/
@[ext]
structure FieldStep where
  field : String
  indices : List Nat
  deriving DecidableEq

@[ext]
structure FieldLocation where
  route : List FieldStep
  field : String
  deriving DecidableEq

/-- A location below the object at the end of a route, seen from where the route starts. -/
def FieldLocation.below (route : List FieldStep) (l : FieldLocation) : FieldLocation :=
  ⟨route ++ l.route, l.field⟩

/-- The field of the object itself that the way to a location goes through, or ends in. -/
def FieldLocation.first (l : FieldLocation) : String :=
  match l.route with
  | [] => l.field
  | step :: _ => step.field

namespace Report

def stepPath (before : String) (step : FieldStep) : String :=
  step.indices.foldl itemPath (joinPath before step.field)

def routePath (before : String) (route : List FieldStep) : String := route.foldl stepPath before

end Report

/-! ### Ways to objects -/

theorem Value.holds_iff {path place : String} : v.Holds x n path place ↔
    ∃ indices, indices.length = n ∧ place = indices.foldl Report.itemPath path ∧
      v.nestedObject? indices = some x := by
  constructor
  · intro holds
    induction holds with
    | object => exact ⟨[], rfl, rfl, rfl⟩
    | @item depth path items i v place stands _ ih =>
      obtain ⟨indices, length, rfl, found⟩ := ih
      refine ⟨i :: indices, congrArg (· + 1) length, rfl, ?_⟩
      rw [nestedObject?, stands]
      exact found
  · rintro ⟨indices, rfl, rfl, found⟩
    induction indices generalizing v path with
    | nil =>
      unfold nestedObject? asObject? at found
      split at found
      · cases found
        exact .object
      · cases found
    | cons i rest ih =>
      cases v with
      | array items =>
        obtain ⟨w, stands, found⟩ := Option.bind_eq_some_iff.1 found
        exact .item stands (ih found)
      | _ => cases found

namespace BoundObject

/-- The object `x` is what the step leads to: the field is of object type, its value converts, and
`x` is found in it at as many indices as the type has array levels. -/
def StandsAt (start : Session) (o : BoundObject) (step : FieldStep) (x : BoundObject) : Prop :=
  ∃ v, o.slot? step.field = some v ∧ (o.outlet step.field).type.isObject = true ∧
    let converted := (o.outlet step.field).convert builder v start
    converted.error = none ∧ step.indices.length = (o.outlet step.field).type.depth ∧
      converted.value.nestedObject? step.indices = some x

/-- The route leads from the first object to the second one. -/
inductive Leads (start : Session) : List FieldStep → BoundObject → BoundObject → Prop where
  | here (o : BoundObject) : Leads start [] o o
  | step {step route o nested x} (stands : o.StandsAt start step nested)
      (further : Leads start route nested x) : Leads start (step :: route) o x

theorem StandsAt.unique {step : FieldStep} (h : o.StandsAt start step x)
    (h' : o.StandsAt start step y) : x = y := by
  obtain ⟨v, stored, -, -, -, found⟩ := h
  obtain ⟨w, stored', -, -, -, found'⟩ := h'
  cases stored.symm.trans stored'
  exact Option.some_inj.1 (found.symm.trans found')

theorem Leads.unique {route : List FieldStep} (h : Leads start route o x)
    (h' : Leads start route o y) : x = y := by
  induction h with
  | here =>
    cases h'
    rfl
  | step stands _ ih =>
    cases h' with
    | step stands' further =>
      cases stands.unique stands'
      exact ih further

theorem sitsIn_iff {path field place : String} : o.SitsIn start path field x place ↔
    ∃ indices, place = Report.stepPath path ⟨field, indices⟩ ∧
      o.StandsAt start ⟨field, indices⟩ x := by
  constructor
  · rintro ⟨v, stored, typed, converts, holds⟩
    obtain ⟨indices, length, rfl, found⟩ := Value.holds_iff.1 holds
    exact ⟨indices, rfl, v, stored, typed, converts, length, found⟩
  · rintro ⟨indices, rfl, v, stored, typed, converts, length, found⟩
    exact ⟨v, stored, typed, converts, Value.holds_iff.2 ⟨indices, length, rfl, found⟩⟩

theorem reaches_iff {level : Nat} {path place : String} : Reaches start level path o place x ↔
    ∃ route, route.length = level ∧ place = Report.routePath path route ∧
      Leads start route o x := by
  constructor
  · intro reaches
    induction reaches with
    | here path o => exact ⟨[], rfl, rfl, .here o⟩
    | inside sits _ ih =>
      obtain ⟨indices, rfl, stands⟩ := sitsIn_iff.1 sits
      obtain ⟨route, length, rfl, leads⟩ := ih
      exact ⟨_ :: route, congrArg (· + 1) length, rfl, .step stands leads⟩
  · rintro ⟨route, rfl, rfl, leads⟩
    induction leads generalizing path with
    | here o => exact .here path o
    | step stands _ ih => exact .inside (sitsIn_iff.2 ⟨_, rfl, stands⟩) ih

/-- What is wrong with the field at a location below the object. -/
def ProblemAt (start : Session) (o : BoundObject) (l : FieldLocation) (problem : Problem) : Prop :=
  ∃ x, Leads start l.route o x ∧
    x.FieldProblem start (Report.routePath "" l.route) l.field problem

theorem hasProblem_iff {problem : Problem} :
    o.HasProblem s problem ↔ ∃ l, o.ProblemAt s l problem := by
  constructor
  · rintro ⟨level, place, x, reaches, field, wrong⟩
    obtain ⟨route, -, rfl, leads⟩ := reaches_iff.1 reaches
    exact ⟨⟨route, field⟩, x, leads, wrong⟩
  · rintro ⟨⟨route, field⟩, x, leads, wrong⟩
    exact ⟨route.length, _, x, reaches_iff.2 ⟨route, rfl, rfl, leads⟩, field, wrong⟩

end BoundObject

/-! ### Texts of locations -/

/-- Indices as a path writes them. -/
def indexText (indices : List Nat) : List Char :=
  indices.flatMap fun i => '[' :: (toString i).toList ++ [']']

/-- The text of a location below an object that has no path itself. -/
def locationText (route : List FieldStep) (field : String) : List Char :=
  match route with
  | [] => field.toList
  | step :: rest => step.field.toList ++ indexText step.indices ++ '.' :: locationText rest field

theorem toList_foldl_itemPath (indices : List Nat) (path : String) :
    (indices.foldl Report.itemPath path).toList = path.toList ++ indexText indices := by
  induction indices generalizing path with
  | nil => simp [indexText]
  | cons i rest ih =>
    rw [List.foldl_cons, ih]
    simp [indexText, Report.itemPath]

theorem toList_joinPath {before : String} (h : before ≠ "") (field : String) :
    (Report.joinPath before field).toList = before.toList ++ '.' :: field.toList := by
  simp [Report.joinPath, h]

theorem ne_empty_of_toList {text : String} {before after : List Char} {c : Char}
    (h : text.toList = before ++ c :: after) : text ≠ "" := by
  rintro rfl
  simp at h

theorem toList_routePath {before : String} (h : before ≠ "") (route : List FieldStep)
    (field : String) : (Report.joinPath (Report.routePath before route) field).toList =
      before.toList ++ '.' :: locationText route field := by
  induction route generalizing before with
  | nil => exact toList_joinPath h field
  | cons step rest ih =>
    have text : (Report.stepPath before step).toList =
        before.toList ++ '.' :: (step.field.toList ++ indexText step.indices) := by
      rw [Report.stepPath, toList_foldl_itemPath, toList_joinPath h]
      simp
    rw [Report.routePath, List.foldl_cons, ← Report.routePath, ih (ne_empty_of_toList text), text,
      locationText]
    simp

theorem toList_path {route : List FieldStep} (named : ∀ step ∈ route.head?, step.field ≠ "")
    (field : String) : (Report.joinPath (Report.routePath "" route) field).toList =
      locationText route field := by
  cases route with
  | nil => rfl
  | cons step rest =>
    have text : (Report.stepPath "" step).toList =
        step.field.toList ++ indexText step.indices := by
      rw [Report.stepPath, toList_foldl_itemPath]
      rfl
    have nonempty : Report.stepPath "" step ≠ "" := by
      intro empty
      rw [empty] at text
      have unnamed : step.field.toList = [] := (List.append_eq_nil_iff.1 text.symm).1
      exact named step rfl (String.toList_eq_nil_iff.1 unnamed)
    rw [Report.routePath, List.foldl_cons, ← Report.routePath, toList_routePath nonempty, text,
      locationText]

/-! ### Reading texts back -/

theorem append_cons_inj {α : Type} {a : α} {before before' after after' : List α}
    (h : a ∉ before) (h' : a ∉ before') (same : before ++ a :: after = before' ++ a :: after') :
    before = before' ∧ after = after' := by
  rcases List.append_eq_append_iff.1 same with ⟨_ | ⟨b, between⟩, rfl, rest⟩ |
      ⟨_ | ⟨b, between⟩, rfl, rest⟩
  · simpa using rest
  · obtain ⟨rfl, -⟩ := List.cons_eq_cons.1 rest
    simp at h'
  · simpa using rest.symm
  · obtain ⟨rfl, -⟩ := List.cons_eq_cons.1 rest
    simp at h

theorem bracket_notMem (i : Nat) : ']' ∉ (toString i).toList := by
  intro inside
  rw [Nat.toString_eq_repr, Nat.toList_repr] at inside
  have digit := Nat.isDigit_of_mem_toDigits (by decide) (by decide) inside
  cases digit

theorem indexText_inj {indices indices' : List Nat} {after after' : List Char}
    (same : indexText indices ++ '.' :: after = indexText indices' ++ '.' :: after') :
    indices = indices' ∧ after = after' := by
  induction indices generalizing indices' with
  | nil =>
    cases indices' with
    | nil => simpa [indexText] using same
    | cons i rest => simp [indexText] at same
  | cons i rest ih =>
    cases indices' with
    | nil => simp [indexText] at same
    | cons i' rest' =>
      have same : (toString i).toList ++ ']' :: (indexText rest ++ '.' :: after) =
          (toString i').toList ++ ']' :: (indexText rest' ++ '.' :: after') := by
        simpa [indexText] using same
      obtain ⟨digits, same⟩ := append_cons_inj (bracket_notMem i) (bracket_notMem i') same
      obtain ⟨rfl, rfl⟩ := ih same
      have number : i = i' := Nat.repr_injective (String.toList_injective digits)
      exact ⟨by rw [number], rfl⟩

/-- What stands first behind the name of a field on the way. -/
def FieldStep.separator (step : FieldStep) : Char := if step.indices.isEmpty then '.' else '['

theorem FieldStep.exists_separator (step : FieldStep) (after : List Char) :
    ∃ rest, indexText step.indices ++ '.' :: after = step.separator :: rest := by
  obtain ⟨field, indices⟩ := step
  cases indices with
  | nil => exact ⟨after, rfl⟩
  | cons i rest => exact ⟨_, rfl⟩

namespace BoundObject

/-- Beside a field with an object in it, the object stores a field whose name reads like the way to
something in that object. -/
def IsAmbiguous (start : Session) (o : BoundObject) : Prop :=
  ∃ step x other, o.StandsAt start step x ∧ o.hasData other = true ∧
    (step.field.toList ++ [step.separator]) <+: other.toList

/-- The way to one location goes through a field with an object in it, and that to the other one
through a field beside it whose name reads like the way to something in that object. -/
def Mistakes (start : Session) (o : BoundObject) (l l' : FieldLocation) : Prop :=
  ∃ step x, l.route.head? = some step ∧ o.StandsAt start step x ∧ o.hasData l'.first = true ∧
    (step.field.toList ++ [step.separator]) <+: l'.first.toList

theorem Mistakes.isAmbiguous {l l' : FieldLocation} (h : o.Mistakes start l l') :
    o.IsAmbiguous start := by
  obtain ⟨step, x, -, stands, stored, front⟩ := h
  exact ⟨step, x, l'.first, stands, stored, front⟩

theorem Mistakes.first_ne {l l' : FieldLocation} (h : o.Mistakes start l l') :
    l.first ≠ l'.first := by
  obtain ⟨step, x, hroute, -, -, front⟩ := h
  intro same
  have through : l.first = step.field := by
    obtain ⟨_ | ⟨first, rest⟩, field⟩ := l
    · cases hroute
    · cases hroute
      rfl
  rw [← same, through] at front
  have length := front.length_le
  rw [List.length_append, List.length_singleton] at length
  omega

theorem StandsAt.hasData {step : FieldStep} (h : o.StandsAt start step x) :
    o.hasData step.field = true := by
  obtain ⟨v, stored, -⟩ := h
  exact Dict.has_iff.2 (mem_keys_of_slot? stored)

/-- A name that goes on behind the name of a field as the text of a way does. -/
theorem StandsAt.mistakes {step : FieldStep} {route : List FieldStep} {field : String}
    {l' : FieldLocation} {c : Char} {extra after rest : List Char}
    (stands : o.StandsAt start step x) (stored : o.hasData l'.first = true)
    (name : l'.first.toList = step.field.toList ++ c :: extra)
    (text : indexText step.indices ++ '.' :: after = c :: rest) :
    o.Mistakes start ⟨step :: route, field⟩ l' := by
  obtain ⟨tail, behind⟩ := step.exists_separator after
  obtain ⟨rfl, -⟩ := List.cons_eq_cons.1 (behind.symm.trans text)
  refine ⟨step, x, rfl, stands, stored, extra, ?_⟩
  rw [name, List.append_assoc]
  rfl

theorem StandsAt.mistakes_of_text {step : FieldStep} {other field : String}
    {route : List FieldStep} (stands : o.StandsAt start step x) (stored : o.hasData other = true)
    (same : other.toList = locationText (step :: route) field) :
    o.Mistakes start ⟨step :: route, field⟩ ⟨[], other⟩ := by
  obtain ⟨tail, behind⟩ := step.exists_separator (locationText route field)
  rw [locationText, List.append_assoc, behind] at same
  exact stands.mistakes stored same behind

/-- The ways to two locations part at an object where the field that one of them goes through is
taken for the way of the other. -/
def PartsAmbiguously (start : Session) (o : BoundObject) (l l' : FieldLocation) : Prop :=
  ∃ shared z m m', l = m.below shared ∧ l' = m'.below shared ∧ m.first ≠ m'.first ∧
    Leads start shared o z ∧ (z.Mistakes start m m' ∨ z.Mistakes start m' m)

theorem Mistakes.parts {l l' : FieldLocation} (h : o.Mistakes start l l') :
    o.PartsAmbiguously start l l' :=
  ⟨[], o, l, l', rfl, rfl, h.first_ne, .here o, Or.inl h⟩

theorem PartsAmbiguously.symm {l l' : FieldLocation} (h : o.PartsAmbiguously start l l') :
    o.PartsAmbiguously start l' l := by
  obtain ⟨shared, z, m, m', hl, hl', differ, leads, mistakes⟩ := h
  exact ⟨shared, z, m', m, hl', hl, differ.symm, leads, mistakes.symm⟩

theorem PartsAmbiguously.step {step : FieldStep} {route route' : List FieldStep}
    {field field' : String} (stands : o.StandsAt start step x)
    (h : x.PartsAmbiguously start ⟨route, field⟩ ⟨route', field'⟩) :
    o.PartsAmbiguously start ⟨step :: route, field⟩ ⟨step :: route', field'⟩ := by
  obtain ⟨shared, z, m, m', hl, hl', differ, leads, mistakes⟩ := h
  cases hl
  cases hl'
  exact ⟨step :: shared, z, m, m', rfl, rfl, differ, .step stands leads, mistakes⟩

/-- Two stored fields below an object whose texts are the same are one, or else the ways to them
part ambiguously. -/
theorem Leads.apart {route route' : List FieldStep} {field field' : String}
    (leads : Leads start route o x) (leads' : Leads start route' o y)
    (stored : x.hasData field = true) (stored' : y.hasData field' = true)
    (same : locationText route field = locationText route' field') :
    route = route' ∧ field = field' ∨
      o.PartsAmbiguously start ⟨route, field⟩ ⟨route', field'⟩ := by
  induction leads generalizing route' with
  | here o =>
    cases leads' with
    | here => exact Or.inl ⟨rfl, String.toList_injective same⟩
    | step stands' _ => exact Or.inr (stands'.mistakes_of_text stored same).parts.symm
  | @step step route o nested x stands further ih =>
    cases leads' with
    | here => exact Or.inr (stands.mistakes_of_text stored' same.symm).parts
    | @step step' route' _ nested' _ stands' further' =>
      simp only [locationText, List.append_assoc] at same
      by_cases named : step.field = step'.field
      · rw [named, List.append_right_inj] at same
        obtain ⟨indices, below⟩ := indexText_inj same
        obtain rfl : step = step' := FieldStep.ext named indices
        cases stands.unique stands'
        rcases ih further' stored below with ⟨rfl, rfl⟩ | parts
        · exact Or.inl ⟨rfl, rfl⟩
        · exact Or.inr (parts.step stands)
      · right
        rcases List.append_eq_append_iff.1 same with ⟨_ | ⟨c, extra⟩, name, text⟩ |
            ⟨_ | ⟨c, extra⟩, name, text⟩
        · rw [List.append_nil] at name
          exact absurd (String.toList_injective name).symm named
        · have mistakes : o.Mistakes start ⟨step :: route, field⟩ ⟨step' :: route', field'⟩ :=
            stands.mistakes stands'.hasData name text
          exact mistakes.parts
        · rw [List.append_nil] at name
          exact absurd (String.toList_injective name) named
        · have mistakes : o.Mistakes start ⟨step' :: route', field'⟩ ⟨step :: route, field⟩ :=
            stands'.mistakes stands.hasData name text
          exact mistakes.parts.symm

end BoundObject

end LazyBinding
