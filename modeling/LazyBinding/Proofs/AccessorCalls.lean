import LazyBinding.Object.Call
import LazyBinding.Proofs.AccessorNames

/-!
# Calls reach their fields

A call by the name of an accessor for a field reaches that field whatever other fields there are, if
the field has a plain name. In general the field that is spelled as the name suggests comes first,
and hides the one that is meant.
-/
namespace LazyBinding

open Accessor

variable {o : BoundObject} {field name suffix : String} {a : Accessor} {s : Session}

namespace BoundObject

theorem has_iff_mem : o.has field = true ↔ field ∈ Dict.keys o.table ++ Dict.keys o.data := by
  rw [has, hasDeclared, hasData, Bool.or_eq_true, Dict.has_iff, Dict.has_iff, List.mem_append]

theorem forall_has_iff {Q : String → Prop} :
    (∀ name, o.has name = true → Q name) ↔ ∀ name ∈ Dict.keys o.table ++ Dict.keys o.data, Q name :=
  forall_congr' fun _ => imp_congr_left has_iff_mem

/-- Calls by the names of the accessors for a field do to it what the operations do. -/
structure CallsReach (o : BoundObject) (field : String) (s : Session) : Prop where
  get : o.call (Accessor.get.name field) [] s = o.get field s
  set : ∀ v, o.call (Accessor.set.name field) [v] s =
    ⟨(o.set field v s).session, (o.set field v s).object,
      (o.set field v s).result.map fun _ => .null⟩
  has : o.call (Accessor.has.name field) [] s = ⟨s, o, .ok (.bool (o.has field))⟩
  is : o.call (Accessor.is.name field) [] s = ⟨s, o, .ok (.bool (o.isTruthy field))⟩
  unset : o.call (Accessor.unset.name field) [] s = ⟨s, o.unset field, .ok .null⟩
  otherwise : ∀ (a : Accessor) (arguments : List Value), arguments.length ≠ a.arity →
    o.call (a.name field) arguments s =
      ⟨s, o, .error (.badArguments (a.name field) a.arity arguments.length)⟩

theorem call_resolved (read : parse? name = some (a, suffix))
    (found : o.accessorField? suffix = some field) (arguments : List Value) (s : Session) :
    o.call name arguments s =
      if arguments.length = a.arity then o.access a field arguments s
      else ⟨s, o, .error (.badArguments name a.arity arguments.length)⟩ := by
  simp only [call, read, found]

theorem callsReach (read : ∀ a : Accessor, parse? (a.name field) = some (a, functionCase field))
    (found : o.accessorField? (functionCase field) = some field) (s : Session) :
    o.CallsReach field s := by
  have called := fun a arguments => call_resolved (read a) found arguments s
  constructor
  · exact called .get []
  · intro v
    exact called .set [v]
  · exact called .has []
  · exact called .is []
  · exact called .unset []
  · intro a arguments wrong
    rw [called a arguments, if_neg wrong]

theorem call_unread (unread : parse? name = none) (arguments : List Value) (s : Session) :
    o.call name arguments s = ⟨s, o, .error (.unknownAccessor o.cls name)⟩ := by
  simp only [call, unread]

/-! ### The field that is meant -/

theorem accessorField?_guess (present : o.has (snakeCase suffix) = true) :
    o.accessorField? suffix = some (snakeCase suffix) :=
  if_pos present

theorem accessorField?_match (missing : o.has (snakeCase suffix) = false)
    (present : o.has field = true) (spelled : functionCase field = suffix)
    (alone : ∀ other, o.has other = true → functionCase other = suffix → other = field) :
    o.accessorField? suffix = some field := by
  have search : o.accessorField? suffix = (Dict.keys o.table ++ Dict.keys o.data).find?
      fun field => functionCase field == suffix := by
    rw [accessorField?]
    exact if_neg (by rw [missing]; decide)
  rw [search]
  cases found : (Dict.keys o.table ++ Dict.keys o.data).find?
      fun field => functionCase field == suffix with
  | none =>
    have unmatched := List.find?_eq_none.1 found field (has_iff_mem.1 present)
    exact absurd (beq_iff_eq.2 spelled) unmatched
  | some other =>
    have matched : functionCase other = suffix := by simpa using List.find?_some found
    have known : o.has other = true := has_iff_mem.2 (List.mem_of_find?_eq_some found)
    rw [alone other known matched]

/-- Calls by the names of the accessors for a field with a plain name reach the field, whatever other
fields the object has. -/
theorem plain_calls_reach (o : BoundObject) (field : String) (plain : IsPlain field)
    (present : o.has field = true) (s : Session) : o.CallsReach field s := by
  have same := snakeCase_functionCase plain
  have guessed : o.accessorField? (functionCase field) = some (snakeCase (functionCase field)) :=
    accessorField?_guess (by rw [same]; exact present)
  rw [same] at guessed
  exact callsReach (fun a => parse?_name_plain a plain) guessed s

end BoundObject

namespace AccountExample

def session : Session := ⟨[]⟩

/-- Fields that differ in case and underscores alone, declared and not. -/
def account : BoundObject where
  schema := 0
  cls := ⟨"Account"⟩
  table := [("UserId2", .untyped), ("_user_id2", ⟨.primitive .int, 0⟩)]
  data := [("_userId2", .str "1"), ("_user_id2", .str "2"), ("UserId2", .str "3")]

theorem plain : IsPlain "_user_id2" := by
  refine ⟨1, ['u', 's', 'e', 'r', '_', 'i', 'd', '2'], ?_, rfl⟩
  change AreWords (['u', 's', 'e', 'r'] ++ '_' :: ['i', 'd', '2'])
  apply AreWords.joined
  · rfl
  · simp [IsSmall]
  · decide
  · refine .last rfl ?_
    simp [IsSmall]

end AccountExample

open AccountExample in
theorem account_calls_reach :
    IsPlain "_user_id2" ∧ account.has "_user_id2" = true ∧
      functionCase "_userId2" = functionCase "_user_id2" ∧
      account.CallsReach "_user_id2" session ∧
      (account.call "get_UserId2" [] session).result = .ok (.int 2) := by
  have present : account.has "_user_id2" = true := by decide
  have reach := BoundObject.plain_calls_reach account "_user_id2" plain present session
  have named : Accessor.get.name "_user_id2" = "get_UserId2" := by decide
  refine ⟨plain, present, by decide, reach, ?_⟩
  rw [← named, reach.get]
  rfl

namespace BoundObject

/-- A field with a function case of its own is the one that is meant, unless the object has another
field that is spelled as the guess at its name; that one is taken for it. Where there is none, calls
by the names of its accessors reach the field, or they are unknown and change nothing. -/
theorem meant_field_guessed_first (o : BoundObject) (field : String) (present : o.has field = true)
    (alone : ∀ other, o.has other = true → functionCase other = functionCase field →
      other = field) :
    let guess := snakeCase (functionCase field)
    (o.has guess = true → o.accessorField? (functionCase field) = some guess) ∧
    (o.accessorField? (functionCase field) = some field ↔ (o.has guess = true → guess = field)) ∧
    ((o.has guess = true → guess = field) → ∀ s : Session, o.CallsReach field s ∨
      ∀ (a : Accessor) (arguments : List Value), o.call (a.name field) arguments s =
        ⟨s, o, .error (.unknownAccessor o.cls (a.name field))⟩) := by
  intro guess
  have own : (o.has guess = true → guess = field) →
      o.accessorField? (functionCase field) = some field := by
    intro unhidden
    by_cases known : o.has guess = true
    · have guessed : o.accessorField? (functionCase field) = some guess :=
        accessorField?_guess known
      rw [guessed, unhidden known]
    · exact accessorField?_match (eq_false_of_ne_true known) present rfl alone
  refine ⟨accessorField?_guess, ⟨?_, own⟩, ?_⟩
  · intro found known
    have guessed : o.accessorField? (functionCase field) = some guess := accessorField?_guess known
    rw [guessed] at found
    exact Option.some_inj.1 found
  · intro unhidden s
    by_cases unread : ∀ c ∈ (functionCase field).toList.head?, Text.isLowercase c = true
    · right
      intro a arguments
      exact call_unread (parse?_name_eq_none_iff.2 unread) arguments s
    · left
      refine callsReach (fun a => ?_) (own unhidden) s
      exact (parse?_name a field).resolve_right (mt parse?_name_eq_none_iff.1 unread)

end BoundObject

namespace AccountExample

/-- Two fields of which one is the guess at the other. -/
def pair : BoundObject where
  schema := 0
  cls := ⟨"Pair"⟩
  table := [("a_b", ⟨.primitive .int, 0⟩), ("ab", ⟨.primitive .int, 0⟩)]
  data := [("a_b", .int 1), ("ab", .int 2)]

end AccountExample

open AccountExample in
theorem account_field_guessed_first :
    account.has "UserId2" = true ∧
      (∀ other, account.has other = true → functionCase other = functionCase "UserId2" →
        other = "UserId2") ∧
      account.accessorField? "UserId2" = some "UserId2" ∧ pair.accessorField? "AB" = some "ab" := by
  have present : account.has "UserId2" = true := by decide
  have alone : ∀ other, account.has other = true →
      functionCase other = functionCase "UserId2" → other = "UserId2" :=
    BoundObject.forall_has_iff.2 (by decide)
  have meant := (BoundObject.meant_field_guessed_first account "UserId2" present alone).2.1
  have hidden := (BoundObject.meant_field_guessed_first pair "a_b" (by decide)
    (BoundObject.forall_has_iff.2 (by decide))).1 (by decide)
  exact ⟨present, alone, meant.2 (by decide), hidden⟩

open AccountExample in
theorem pair_field_hidden :
    ¬ ∀ (o : BoundObject) (field : String), o.has field = true →
      (∀ other, o.has other = true → functionCase other = functionCase field → other = field) →
      o.accessorField? (functionCase field) = some field := by
  intro claim
  have found := claim pair "a_b" (by decide) (BoundObject.forall_has_iff.2 (by decide))
  revert found
  decide

end LazyBinding
