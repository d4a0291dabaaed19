/-!
# Ordered sets

Lists without repetition in the order in which their members first came.
-/
namespace LazyBinding

/-- Members in order of arrival. -/
abbrev OrderedSet (α : Type) := List α

namespace OrderedSet

variable {α : Type} [DecidableEq α]

/-- A new member goes last; a known one keeps its place. -/
def add (s : OrderedSet α) (a : α) : OrderedSet α := if a ∈ s then s else s ++ [a]

def addAll (s : OrderedSet α) (members : List α) : OrderedSet α := members.foldl add s

theorem mem_add {s : OrderedSet α} {a b : α} : b ∈ add s a ↔ b ∈ s ∨ b = a := by
  unfold add
  split
  · next h => exact ⟨Or.inl, fun hb => hb.elim id fun e => e ▸ h⟩
  · simp

theorem nodup_add {s : OrderedSet α} (a : α) (h : s.Nodup) : (add s a).Nodup := by
  unfold add
  split
  · exact h
  · next hn =>
    have apart : ∀ x ∈ s, x ≠ a := fun x hx e => hn (e ▸ hx)
    exact List.nodup_append.2 ⟨h, by simp, by simpa using apart⟩

theorem mem_addAll {s : OrderedSet α} {members : List α} {b : α} :
    b ∈ addAll s members ↔ b ∈ s ∨ b ∈ members := by
  induction members generalizing s with
  | nil => simp [addAll]
  | cons a rest ih =>
    have h : b ∈ addAll (add s a) rest ↔ b ∈ add s a ∨ b ∈ rest := ih
    rw [mem_add, or_assoc] at h
    simpa [addAll] using h

theorem nodup_addAll {s : OrderedSet α} {members : List α} (h : s.Nodup) :
    (addAll s members).Nodup := by
  induction members generalizing s with
  | nil => exact h
  | cons a rest ih => exact ih (nodup_add a h)

theorem addAll_eq_append {s : OrderedSet α} {members : List α} (distinct : members.Nodup)
    (fresh : ∀ a ∈ members, a ∉ s) : addAll s members = s ++ members := by
  induction members generalizing s with
  | nil => simp [addAll]
  | cons a rest ih =>
    obtain ⟨ha, hrest⟩ := List.nodup_cons.1 distinct
    have hs : add s a = s ++ [a] := by simp [add, fresh a]
    have h : addAll (s ++ [a]) rest = (s ++ [a]) ++ rest := by
      refine ih hrest fun b hb hmem => ?_
      rcases List.mem_append.1 hmem with hmem | hmem
      · exact fresh b (List.mem_cons_of_mem _ hb) hmem
      · exact ha (by rwa [← List.mem_singleton.1 hmem])
    simpa [addAll, hs] using h

theorem filter_add (s : OrderedSet α) (a : α) (p : α → Bool) :
    (add s a).filter p = if p a then add (s.filter p) a else s.filter p := by
  unfold add
  by_cases hs : a ∈ s <;> by_cases hp : p a = true <;> simp [hs, hp, List.filter_append]

theorem filter_addAll (s : OrderedSet α) (members : List α) (p : α → Bool) :
    (addAll s members).filter p = addAll (s.filter p) (members.filter p) := by
  induction members generalizing s with
  | nil => rfl
  | cons a rest ih =>
    have h : (addAll (add s a) rest).filter p = addAll ((add s a).filter p) (rest.filter p) :=
      ih (add s a)
    rw [filter_add] at h
    by_cases hp : p a = true <;> simpa [addAll, hp] using h

end OrderedSet

end LazyBinding
