import LazyBinding.Object.Error
import LazyBinding.Object.Analysis

/-!
# Reports as sets of problems

A report is read as the set of the problems that it lists. Adding a problem lists it and loses no
other one, but for a message at the same place.
-/
namespace LazyBinding

/-- One line of a report. -/
inductive Problem where
  | undeclared (cls : ClassPath) (path : String)
  | unconvertible (cls : ClassPath) (path message : String)

/-- The same line up to the message, of which a report keeps one for each place. -/
def Problem.SamePlace : Problem → Problem → Prop
  | .undeclared cls path, .undeclared cls' path' => cls = cls' ∧ path = path'
  | .unconvertible cls path _, .unconvertible cls' path' _ => cls = cls' ∧ path = path'
  | _, _ => False

theorem Problem.SamePlace.refl (x : Problem) : x.SamePlace x := by
  cases x <;> exact ⟨rfl, rfl⟩

theorem Problem.SamePlace.trans {x y z : Problem} (h : x.SamePlace y) (h' : y.SamePlace z) :
    x.SamePlace z := by
  cases x <;> cases y <;> cases z <;> simp_all [SamePlace]

namespace Sorted

section

variable {κ α : Type} {k j : κ}

/-- Some entry of the key has a property. -/
def Lists (entries : Sorted κ α) (k : κ) (Q : α → Prop) : Prop := ∃ a, (k, a) ∈ entries ∧ Q a

variable {Q : α → Prop}

theorem not_lists_nil : ¬ Lists [] k Q := by
  rintro ⟨a, ha, -⟩
  cases ha

theorem lists_cons {a : α} {rest : Sorted κ α} :
    Lists ((j, a) :: rest) k Q ↔ k = j ∧ Q a ∨ Lists rest k Q := by
  constructor
  · rintro ⟨b, hb, hq⟩
    rcases List.mem_cons.1 hb with heq | hb
    · cases heq
      exact Or.inl ⟨rfl, hq⟩
    · exact Or.inr ⟨b, hb, hq⟩
  · rintro (⟨rfl, hq⟩ | ⟨b, hb, hq⟩)
    · exact ⟨a, List.mem_cons_self, hq⟩
    · exact ⟨b, List.mem_cons_of_mem _ hb, hq⟩

end

variable {κ α : Type} [DecidableEq κ] [LT κ] [DecidableLT κ] {k j : κ} {Q : α → Prop} {N : Prop}
variable {make : Option α → α}

/-- Updating a key adds to what is listed under it at most what the new value has of its own. -/
theorem of_lists_update (entries : Sorted κ α) (known : ∀ a, Q (make (some a)) → Q a ∨ N)
    (fresh : Q (make none) → N) (h : Lists (update entries k make) j Q) :
    Lists entries j Q ∨ j = k ∧ N := by
  induction entries with
  | nil =>
    rcases lists_cons.1 h with ⟨heq, hq⟩ | h
    · exact Or.inr ⟨heq, fresh hq⟩
    · exact absurd h not_lists_nil
  | cons entry rest ih =>
    obtain ⟨k', a⟩ := entry
    rw [lists_cons]
    unfold update at h
    split at h
    · next heq =>
      subst heq
      rcases lists_cons.1 h with ⟨heq, hq⟩ | h
      · rcases known a hq with hq | hn
        · exact Or.inl (Or.inl ⟨heq, hq⟩)
        · exact Or.inr ⟨heq, hn⟩
      · exact Or.inl (Or.inr h)
    · split at h
      · rcases lists_cons.1 h with ⟨heq, hq⟩ | h
        · exact Or.inr ⟨heq, fresh hq⟩
        · exact Or.inl (lists_cons.1 h)
      · rcases lists_cons.1 h with h | h
        · exact Or.inl (Or.inl h)
        · rcases ih h with h | hn
          · exact Or.inl (Or.inr h)
          · exact Or.inr hn

theorem lists_update (entries : Sorted κ α) (known : ∀ a, Q a ∨ N → Q (make (some a)))
    (fresh : N → Q (make none)) (h : Lists entries j Q ∨ j = k ∧ N) :
    Lists (update entries k make) j Q := by
  induction entries with
  | nil =>
    rcases h with h | ⟨rfl, hn⟩
    · exact absurd h not_lists_nil
    · exact lists_cons.2 (Or.inl ⟨rfl, fresh hn⟩)
  | cons entry rest ih =>
    obtain ⟨k', a⟩ := entry
    rw [lists_cons] at h
    unfold update
    split
    · next heq =>
      subst heq
      apply lists_cons.2
      rcases h with (⟨heq, hq⟩ | h) | ⟨heq, hn⟩
      · exact Or.inl ⟨heq, known a (Or.inl hq)⟩
      · exact Or.inr h
      · exact Or.inl ⟨heq, known a (Or.inr hn)⟩
    · split
      · apply lists_cons.2
        rcases h with h | ⟨heq, hn⟩
        · exact Or.inr (lists_cons.2 h)
        · exact Or.inl ⟨heq, fresh hn⟩
      · apply lists_cons.2
        rcases h with (h | h) | h
        · exact Or.inl h
        · exact Or.inr (ih (Or.inl h))
        · exact Or.inr (ih (Or.inr h))

theorem mem_insert {members : List κ} : j ∈ insert members k ↔ j ∈ members ∨ j = k := by
  induction members with
  | nil => simp [insert]
  | cons k' rest ih =>
    unfold insert
    split
    · next heq =>
      subst heq
      grind
    · split
      · grind
      · grind

end Sorted

namespace Report

/-- The report has a line for the problem. -/
def Lists (r : Report) : Problem → Prop
  | .undeclared cls path => Sorted.Lists r.missing cls fun paths => path ∈ paths
  | .unconvertible cls path message =>
    Sorted.Lists r.bad cls fun fields => Sorted.Lists fields path fun m => m = message

/-- The second report lists what the first one lists and some problems, and nothing else. Of two
messages at one place only one may be left. -/
structure Adds (r r' : Report) (P : Problem → Prop) : Prop where
  sound : ∀ x, r'.Lists x → r.Lists x ∨ P x
  complete : ∀ x, r.Lists x ∨ P x → ∃ y, y.SamePlace x ∧ r'.Lists y

variable {r r' r'' : Report} {P P' : Problem → Prop}

theorem not_lists_empty (x : Problem) : ¬ Report.empty.Lists x := by
  cases x <;> exact Sorted.not_lists_nil

theorem Adds.nothing (r : Report) : r.Adds r fun _ => False := by
  constructor
  · intro x hx
    exact Or.inl hx
  · rintro x (hx | hx)
    · exact ⟨x, .refl x, hx⟩
    · cases hx

theorem Adds.trans (h : r.Adds r' P) (h' : r'.Adds r'' P') :
    r.Adds r'' fun x => P x ∨ P' x := by
  constructor
  · intro x hx
    rcases h'.sound x hx with hx | hp
    · exact (h.sound x hx).imp_right Or.inl
    · exact Or.inr (Or.inr hp)
  · intro x hx
    rcases or_assoc.2 hx with hx | hp
    · obtain ⟨y, same, hy⟩ := h.complete x hx
      obtain ⟨z, same', hz⟩ := h'.complete y (Or.inl hy)
      exact ⟨z, same'.trans same, hz⟩
    · exact h'.complete x (Or.inr hp)

theorem Adds.congr (h : r.Adds r' P) (hp : ∀ x, P x ↔ P' x) : r.Adds r' P' := by
  constructor
  · intro x hx
    exact (h.sound x hx).imp_right (hp x).1
  · intro x hx
    exact h.complete x (hx.imp_right (hp x).2)

theorem adds_missing (r : Report) (cls : ClassPath) (path : String) :
    r.Adds (r.addMissing cls path) fun x => x = .undeclared cls path := by
  have known : ∀ {j : String} (paths : List String),
      j ∈ Sorted.insert paths path ↔ j ∈ paths ∨ j = path := fun _ => Sorted.mem_insert
  constructor
  · intro x hx
    cases x with
    | undeclared c p =>
      have h := Sorted.of_lists_update (N := p = path) r.missing (fun paths => (known paths).1)
        (fun h => by simpa using (known []).1 h) hx
      rcases h with h | ⟨rfl, rfl⟩
      · exact Or.inl h
      · exact Or.inr rfl
    | unconvertible c p m => exact Or.inl hx
  · rintro x (hx | rfl)
    · refine ⟨x, .refl x, ?_⟩
      cases x with
      | undeclared c p =>
        exact Sorted.lists_update (N := False) r.missing
          (fun paths h => (known paths).2 (h.imp_right False.elim)) False.elim (Or.inl hx)
      | unconvertible c p m => exact hx
    · refine ⟨_, .refl _, ?_⟩
      exact Sorted.lists_update (N := True) r.missing
        (fun paths _ => (known paths).2 (Or.inr rfl)) (fun _ => (known []).2 (Or.inr rfl))
        (Or.inr ⟨rfl, trivial⟩)

theorem adds_bad (r : Report) (cls : ClassPath) (path message : String) :
    r.Adds (r.addBad cls path message) fun x => x = .unconvertible cls path message := by
  constructor
  · intro x hx
    cases x with
    | undeclared c p => exact Or.inl hx
    | unconvertible c p m =>
      have inner : ∀ fields : Sorted String String,
          Sorted.Lists (Sorted.put fields path message) p (fun m' => m' = m) →
            Sorted.Lists fields p (fun m' => m' = m) ∨ p = path ∧ message = m :=
        fun fields => Sorted.of_lists_update fields (fun _ h => Or.inr h) id
      have h := Sorted.of_lists_update (N := p = path ∧ message = m) r.bad inner
        (fun h => (inner [] h).resolve_left Sorted.not_lists_nil) hx
      rcases h with h | ⟨rfl, rfl, rfl⟩
      · exact Or.inl h
      · exact Or.inr rfl
  · -- Only that some message stands at the place survives when another one is put there.
    have kept : ∀ {c p}, (∃ m, r.Lists (.unconvertible c p m)) ∨ c = cls ∧ p = path →
        ∃ m, (r.addBad cls path message).Lists (.unconvertible c p m) := by
      intro c p h
      have inner : ∀ fields : Sorted String String,
          Sorted.Lists fields p (fun _ => True) ∨ p = path →
            Sorted.Lists (Sorted.put fields path message) p fun _ => True := fun fields h =>
        Sorted.lists_update (N := True) fields (fun _ _ => trivial) (fun _ => trivial)
          (h.imp_right fun h => ⟨h, trivial⟩)
      have listed : Sorted.Lists (r.addBad cls path message).bad c fun fields =>
          Sorted.Lists fields p fun _ => True := by
        refine Sorted.lists_update (N := p = path) r.bad inner (fun h => inner [] (Or.inr h)) ?_
        rcases h with ⟨m, fields, hfields, m', hm', -⟩ | h
        · exact Or.inl ⟨fields, hfields, m', hm', trivial⟩
        · exact Or.inr h
      obtain ⟨fields, hfields, m, hm, -⟩ := listed
      exact ⟨m, fields, hfields, m, hm, rfl⟩
    rintro x (hx | rfl)
    · cases x with
      | undeclared c p => exact ⟨_, .refl _, hx⟩
      | unconvertible c p m =>
        obtain ⟨m', hm'⟩ := kept (Or.inl ⟨m, hx⟩)
        exact ⟨.unconvertible c p m', ⟨rfl, rfl⟩, hm'⟩
    · obtain ⟨m, hm⟩ := kept (Or.inr ⟨rfl, rfl⟩)
      exact ⟨.unconvertible cls path m, ⟨rfl, rfl⟩, hm⟩

end Report

end LazyBinding
