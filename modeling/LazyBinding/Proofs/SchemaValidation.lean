import LazyBinding.Json.Pointer
import Mathlib.Data.List.Basic
import Mathlib.Data.List.Forall2

/-!
# Validation against a schema

What a JSON Schema says about a document, as far as the keywords `type`, `properties`, `items`,
`oneOf` and `$ref` go; other keywords are annotations. A reference may lead back to a schema around
it, so the depth of the search is bounded and an answer may be missing. An answer that is found
stays the same under any larger bound.
-/
namespace LazyBinding.Json

/-- The document is of the type that a word names. A double without a fraction is an integer. -/
def hasType (word : String) : Json → Bool
  | .null => word == "null"
  | .bool _ => word == "boolean"
  | .int _ => word == "integer" || word == "number"
  | .float x => word == "number" || word == "integer" && x.isFinite && x.floor == x
  | .str _ => word == "string"
  | .arr _ => word == "array"
  | .obj _ => word == "object"

/-- The schema that a reference names: a pointer into the whole schema behind a number sign.
Pointers with percent escapes are not followed. -/
def referenced? (root : Json) (reference : String) : Option Json :=
  match reference.toList with
  | '#' :: pointer => if '%' ∈ pointer then none else root.pointer? (String.ofList pointer)
  | _ => none

/-- Whether all of some answers are yes; one that is missing leaves it open. -/
def allOf (answers : List (Option Bool)) : Option Bool := (answers.mapM id).map fun bs => bs.all id

/-- Whether exactly one of some answers is yes; one that is missing leaves it open. -/
def oneOf (answers : List (Option Bool)) : Option Bool :=
  (answers.mapM id).map fun bs => bs.count true == 1

section

variable (root : Json) (check : Json → Json → Option Bool)

def checkType (body d : Json) : Option Bool :=
  match body with
  | .str word => some (d.hasType word)
  | _ => none

/-- A member that is named in the keyword has to pass the schema there. -/
def checkMember (properties : Dict String Json) (member : String × Json) : Option Bool :=
  match Dict.get? properties member.1 with
  | some schema => check schema member.2
  | none => some true

def checkProperties (body d : Json) : Option Bool :=
  match body, d with
  | .obj properties, .obj members => allOf (members.map (checkMember check properties))
  | .obj _, _ => some true
  | _, _ => none

def checkItems (schema d : Json) : Option Bool :=
  match d with
  | .arr items => allOf (items.map (check schema))
  | _ => some true

def checkOneOf (body d : Json) : Option Bool :=
  match body with
  | .arr schemas => oneOf (schemas.map fun schema => check schema d)
  | _ => none

def checkReference (body d : Json) : Option Bool :=
  match body with
  | .str reference => (root.referenced? reference).bind fun schema => check schema d
  | _ => none

/-- What one member of a schema says about a document; `check` stands for the schemas inside. -/
def checkKeyword (d : Json) (keyword : String × Json) : Option Bool :=
  match keyword.1 with
  | "type" => checkType keyword.2 d
  | "properties" => checkProperties check keyword.2 d
  | "items" => checkItems check keyword.2 d
  | "oneOf" => checkOneOf check keyword.2 d
  | "$ref" => checkReference root check keyword.2 d
  | _ => some true

end

/-- Whether a document passes a schema that is part of the schema `root`, as far as that can be told
with at most `fuel` schemas inside each other. -/
def check (root : Json) : (fuel : Nat) → (schema d : Json) → Option Bool
  | 0, _, _ => none
  | _ + 1, .bool b, _ => some b
  | fuel + 1, .obj keywords, d => allOf (keywords.map (checkKeyword root (check root fuel) d))
  | _ + 1, _, _ => none

/-- The answer of a part of the schema `root` to a document. -/
def Decides (root schema d : Json) (b : Bool) : Prop := ∃ fuel, check root fuel schema d = some b

/-- The document passes the schema. -/
def Validates (schema d : Json) : Prop := Decides schema schema d true

/-! ### Answers -/

section

variable {answers answers' : List (Option Bool)} {bs : List Bool} {b : Bool}

theorem mapM_id_eq_some : answers.mapM id = some bs ↔ answers = bs.map some := by
  induction answers generalizing bs with
  | nil => cases bs <;> simp
  | cons a rest ih =>
    cases a with
    | none => cases bs <;> simp [List.mapM_cons]
    | some a => cases bs <;> simp [List.mapM_cons, Option.bind_eq_some_iff, ih, and_comm]

/-- Some of the answers that were missing have been found. -/
def Settles : List (Option Bool) → List (Option Bool) → Prop :=
  List.Forall₂ fun before after => ∀ b, before = some b → after = some b

theorem Settles.complete (h : Settles answers answers') (all : answers = bs.map some) :
    answers' = bs.map some := by
  subst all
  induction bs generalizing answers' with
  | nil => exact List.forall₂_nil_left_iff.1 h
  | cons b rest ih =>
    obtain ⟨after, others, first, further, rfl⟩ := List.forall₂_cons_left_iff.1 h
    rw [List.map_cons, first b rfl, ih further]

theorem allOf_mono (h : Settles answers answers') (all : allOf answers = some b) :
    allOf answers' = some b := by
  obtain ⟨bs, hbs, hb⟩ := Option.map_eq_some_iff.1 all
  have complete := h.complete (mapM_id_eq_some.1 hbs)
  exact Option.map_eq_some_iff.2 ⟨bs, mapM_id_eq_some.2 complete, hb⟩

theorem oneOf_mono (h : Settles answers answers') (one : oneOf answers = some b) :
    oneOf answers' = some b := by
  obtain ⟨bs, hbs, hb⟩ := Option.map_eq_some_iff.1 one
  have complete := h.complete (mapM_id_eq_some.1 hbs)
  exact Option.map_eq_some_iff.2 ⟨bs, mapM_id_eq_some.2 complete, hb⟩

theorem allOf_true (h : ∀ answer ∈ answers, answer = some true) : allOf answers = some true := by
  have same : answers = (List.replicate answers.length true).map some := by
    rw [List.map_replicate]
    exact List.eq_replicate_of_mem h
  rw [allOf, mapM_id_eq_some.2 same]
  simp

end

/-! ### More fuel -/

section

variable {root schema d : Json} {f g : Json → Json → Option Bool} {b b' : Bool} {fuel fuel' : Nat}

theorem settles_map {α : Type} {f g : α → Option Bool} (h : ∀ a b, f a = some b → g a = some b)
    (l : List α) : Settles (l.map f) (l.map g) := by
  induction l with
  | nil => exact .nil
  | cons a rest ih => exact .cons (h a) ih

/-- Whatever the first check answers the second one answers too. -/
def Refines (f g : Json → Json → Option Bool) : Prop :=
  ∀ schema d b, f schema d = some b → g schema d = some b

theorem Refines.properties (h : Refines f g) (body : Json)
    (known : checkProperties f body d = some b) : checkProperties g body d = some b := by
  unfold checkProperties at known ⊢
  split at known
  · next properties members =>
    refine allOf_mono (settles_map ?_ members) known
    intro member b hb
    unfold checkMember at hb ⊢
    split at hb
    · exact h _ _ _ hb
    · exact hb
  · exact known
  · cases known

theorem Refines.items (h : Refines f g) (known : checkItems f schema d = some b) :
    checkItems g schema d = some b := by
  unfold checkItems at known ⊢
  split at known
  · next items => exact allOf_mono (settles_map (h schema) items) known
  · exact known

theorem Refines.oneOf (h : Refines f g) (body : Json) (known : checkOneOf f body d = some b) :
    checkOneOf g body d = some b := by
  unfold checkOneOf at known ⊢
  split at known
  · next schemas => exact oneOf_mono (settles_map (fun schema => h schema d) schemas) known
  · cases known

theorem Refines.reference (h : Refines f g) (body : Json)
    (known : checkReference root f body d = some b) : checkReference root g body d = some b := by
  unfold checkReference at known ⊢
  split at known
  · obtain ⟨schema, found, hb⟩ := Option.bind_eq_some_iff.1 known
    exact Option.bind_eq_some_iff.2 ⟨schema, found, h _ _ _ hb⟩
  · cases known

theorem Refines.keyword (h : Refines f g) (keyword : String × Json)
    (known : checkKeyword root f d keyword = some b) : checkKeyword root g d keyword = some b := by
  obtain ⟨name, body⟩ := keyword
  unfold checkKeyword at known ⊢
  dsimp only at known ⊢
  split at known
  · exact known
  · exact h.properties body known
  · exact h.items known
  · exact h.oneOf body known
  · exact h.reference body known
  · exact known

theorem check_mono (fuel : Nat) : Refines (check root fuel) (check root (fuel + 1)) := by
  induction fuel with
  | zero =>
    intro schema d b known
    cases known
  | succ fuel ih =>
    intro schema d b known
    cases schema with
    | bool answer => exact known
    | obj keywords => exact allOf_mono (settles_map (fun _ _ => ih.keyword _) keywords) known
    | _ => cases known

theorem check_le (enough : fuel ≤ fuel') (known : check root fuel schema d = some b) :
    check root fuel' schema d = some b := by
  induction enough with
  | refl => exact known
  | step _ ih => exact check_mono _ _ _ _ ih

theorem Decides.unique (h : Decides root schema d b) (h' : Decides root schema d b') : b = b' := by
  obtain ⟨fuel, hb⟩ := h
  obtain ⟨fuel', hb'⟩ := h'
  have first := check_le (Nat.le_max_left fuel fuel') hb
  have second := check_le (Nat.le_max_right fuel fuel') hb'
  exact Option.some.inj (first.symm.trans second)

-- Two alternatives that a document passes are one too many.
example :
    let schema := obj [("oneOf", .arr [.obj [("type", .str "number")], .obj []])]
    schema.check 3 schema (.int 1) = some false ∧ schema.check 3 schema .null = some true := by
  decide

/-- Answers that exist one by one exist all at once. -/
theorem exists_fuel {α : Type} {l : List α} {schema d : α → Json} {b : α → Bool}
    (h : ∀ a ∈ l, Decides root (schema a) (d a) (b a)) :
    ∃ fuel, ∀ a ∈ l, check root fuel (schema a) (d a) = some (b a) := by
  induction l with
  | nil => exact ⟨0, by simp⟩
  | cons a rest ih =>
    obtain ⟨first, others⟩ := List.forall_mem_cons.1 h
    obtain ⟨fuel, hfirst⟩ := first
    obtain ⟨fuel', hothers⟩ := ih others
    refine ⟨max fuel fuel', List.forall_mem_cons.2 ⟨?_, ?_⟩⟩
    · exact check_le (Nat.le_max_left _ _) hfirst
    · intro a ha
      exact check_le (Nat.le_max_right _ _) (hothers a ha)

end

/-! ### What the keywords say -/

namespace Decides

variable {root schema d : Json} {b : Bool} {rest : List (String × Json)}

theorem empty : Decides root (.obj []) d true := ⟨1, rfl⟩

theorem check_typed (fuel : Nat) (word : String) :
    check root (fuel + 1) (.obj [("type", .str word)]) d = some (d.hasType word) := by
  simp [check, allOf, checkKeyword, checkType]

theorem typed (word : String) : Decides root (.obj [("type", .str word)]) d (d.hasType word) :=
  ⟨1, check_typed 0 word⟩

theorem succ (h : Decides root schema d b) : ∃ fuel, check root (fuel + 1) schema d = some b := by
  obtain ⟨fuel, known⟩ := h
  exact ⟨fuel, check_mono fuel _ _ _ known⟩

/-- Of a schema that refuses null and one for null alone, every document passes one at most. -/
theorem nullable (null : Decides root schema .null false)
    (other : d ≠ .null → Decides root schema d true) :
    Decides root (.obj [("oneOf", .arr [schema, .obj [("type", .str "null")]])]) d true := by
  have alternatives : ∀ {fuel b}, check root (fuel + 1) schema d = some b →
      check root (fuel + 2) (.obj [("oneOf", .arr [schema, .obj [("type", .str "null")]])]) d =
        some (b != d.hasType "null") := by
    intro fuel b known
    have second : check root (fuel + 1) (.obj [("type", .str "null")]) d =
        some (d.hasType "null") := check_typed fuel "null"
    rw [check, List.map_cons, List.map_nil]
    simp only [checkKeyword, checkOneOf, List.map_cons, List.map_nil, known, second]
    cases b <;> cases d.hasType "null" <;> rfl
  by_cases hd : d = .null
  · subst hd
    obtain ⟨fuel, known⟩ := null.succ
    exact ⟨fuel + 2, alternatives known⟩
  · obtain ⟨fuel, known⟩ := (other hd).succ
    refine ⟨fuel + 2, ?_⟩
    rw [alternatives known]
    cases d with
    | null => exact absurd rfl hd
    | _ => rfl

theorem reference {text : String} (found : root.referenced? text = some schema)
    (h : Decides root schema d b) : Decides root (.obj [("$ref", .str text)]) d b := by
  obtain ⟨fuel, known⟩ := h
  refine ⟨fuel + 1, ?_⟩
  simp [check, allOf, checkKeyword, checkReference, found, known]

theorem array {items : List Json} (h : ∀ item ∈ items, Decides root schema item true) :
    Decides root (.obj [("type", .str "array"), ("items", schema)]) (.arr items) true := by
  obtain ⟨fuel, known⟩ : ∃ fuel, ∀ item ∈ items, check root fuel schema item = some true :=
    exists_fuel h
  have all : checkItems (check root fuel) schema (.arr items) = some true := by
    refine allOf_true ?_
    intro answer hanswer
    obtain ⟨item, hitem, rfl⟩ := List.mem_map.1 hanswer
    exact known item hitem
  refine ⟨fuel + 1, allOf_true ?_⟩
  simp [checkKeyword, checkType, hasType, all]

theorem array_null :
    Decides root (.obj [("type", .str "array"), ("items", schema)]) .null false := ⟨1, rfl⟩

/-- The keywords that have a say. -/
def assertions : List String := ["type", "properties", "items", "oneOf", "$ref"]

theorem checkKeyword_annotation {check : Json → Json → Option Bool} {keyword : String × Json}
    (silent : keyword.1 ∉ assertions) : checkKeyword root check d keyword = some true := by
  simp only [assertions, List.mem_cons, List.not_mem_nil, or_false, not_or] at silent
  unfold checkKeyword
  split <;> simp_all

variable {properties : List (String × Json)} {notes : List (String × Json)}

theorem exists_fuel_members {members : List (String × Json)}
    (h : ∀ member ∈ members, ∀ schema, Dict.get? properties member.1 = some schema →
      Decides root schema member.2 true) :
    ∃ fuel, checkProperties (check root fuel) (.obj properties) (.obj members) = some true := by
  have each : ∀ member ∈ members,
      Decides root ((Dict.get? properties member.1).getD (.bool true)) member.2 true := by
    intro member hmember
    cases found : Dict.get? properties member.1 with
    | none => exact ⟨1, rfl⟩
    | some schema => exact h member hmember schema found
  obtain ⟨fuel, known⟩ := exists_fuel (b := fun _ => true) each
  refine ⟨fuel, allOf_true ?_⟩
  intro answer hanswer
  obtain ⟨member, hmember, rfl⟩ := List.mem_map.1 hanswer
  have hknown := known member hmember
  unfold checkMember
  split
  · next schema found =>
    rw [found] at hknown
    exact hknown
  · rfl

theorem object {members : List (String × Json)} (silent : ∀ note ∈ notes, note.1 ∉ assertions)
    (h : ∀ member ∈ members, ∀ schema, Dict.get? properties member.1 = some schema →
      Decides root schema member.2 true) :
    Decides root (.obj ([("type", .str "object"), ("properties", .obj properties)] ++ notes))
      (.obj members) true := by
  obtain ⟨fuel, known⟩ := exists_fuel_members h
  refine ⟨fuel + 1, allOf_true ?_⟩
  intro answer hanswer
  obtain ⟨keyword, hkeyword, rfl⟩ := List.mem_map.1 hanswer
  rcases List.mem_append.1 hkeyword with asserted | noted
  · rcases List.mem_pair.1 asserted with rfl | rfl
    · rfl
    · exact known
  · exact checkKeyword_annotation (silent keyword noted)

theorem object_null (silent : ∀ note ∈ notes, note.1 ∉ assertions) :
    Decides root (.obj ([("type", .str "object"), ("properties", .obj properties)] ++ notes))
      .null false := by
  refine ⟨1, ?_⟩
  have annotations : notes.map (checkKeyword root (check root 0) .null) =
      (List.replicate notes.length true).map some := by
    rw [List.map_replicate]
    refine List.eq_replicate_iff.2 ⟨List.length_map _, ?_⟩
    intro answer hanswer
    obtain ⟨note, hnote, rfl⟩ := List.mem_map.1 hanswer
    exact checkKeyword_annotation (silent note hnote)
  have answers : ([("type", Json.str "object"), ("properties", .obj properties)] ++ notes).map
      (checkKeyword root (check root 0) .null) =
        (false :: true :: List.replicate notes.length true).map some := by
    rw [List.map_append, annotations]
    rfl
  rw [check, allOf, mapM_id_eq_some.2 answers]
  rfl

end Decides

end LazyBinding.Json
