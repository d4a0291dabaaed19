import LazyBinding.Proofs.AncestorWalk
import Mathlib.Order.Defs.Unbundled

/-!
# The order of inheritance

`isA` orders the registered classes with the root class on top. Classes whose parents lead nowhere
take part in this order too: they are below themselves and the root class only.
-/
namespace LazyBinding.Registry

open Relation (ReflTransGen)

variable {r : Registry} {a b c : ClassPath}

namespace Descends

theorem contains (h : r.Descends a b) (registered : r.contains a = true) :
    r.contains b = true := by
  rcases ReflTransGen.cases_tail h with rfl | ⟨_, -, hp⟩
  · exact registered
  · exact hp.contains

theorem of_root (h : r.Descends .root b) : b = .root := by
  rcases ReflTransGen.cases_head h with rfl | ⟨p, hp, -⟩
  · rfl
  · exact absurd rfl hp.ne_root

theorem trans (h : r.Descends a b) (h' : r.Descends b c) : r.Descends a c :=
  ReflTransGen.trans h h'

end Descends

theorem Ancestry.begins_with {chain above : List ClassPath} (ha : r.Ancestry a chain)
    (hb : r.Ancestry b above) (h : r.Descends a b) : above <+: chain := by
  obtain ⟨done, rest, rfl⟩ := List.append_of_mem (ha.mem_iff.2 h)
  rw [hb.unique ha.cut.1]
  exact ⟨rest, by simp⟩

theorem Descends.antisymm (h : r.Descends a b) (h' : r.Descends b a)
    (rooted : r.Descends a .root) : a = b := by
  obtain ⟨chain, ha⟩ := exists_ancestry rooted
  obtain ⟨above, hb⟩ := exists_ancestry (h'.trans rooted)
  have same : above = chain :=
    (ha.begins_with hb h).eq_of_length_le (hb.begins_with ha h').length_le
  obtain ⟨before, rfl⟩ := ha.ends
  obtain ⟨before', rfl⟩ := hb.ends
  exact (List.singleton_inj.1 (List.append_inj' same rfl).2).symm

/-- A class is itself, is below the root class, or has the other one on its way to the root. -/
theorem isA_iff : r.isA a b = true ↔
    r.contains a = true ∧ (a = b ∨ b = .root ∨ r.Descends a .root ∧ r.Descends a b) := by
  by_cases short : a = b ∨ b.isRoot = true
  · rw [isA, if_pos short]
    constructor
    · intro registered
      refine ⟨registered, short.imp_right fun root => Or.inl ?_⟩
      simpa [ClassPath.isRoot] using root
    · exact And.left
  · rw [isA, if_neg short]
    obtain ⟨other, inner⟩ := not_or.1 short
    have inner : b ≠ .root := by simpa [ClassPath.isRoot] using inner
    have rooted := @exists_ancestorChain_iff r a
    cases found : r.ancestorChain a with
    | error e =>
      have rootless : ¬ r.Descends a .root := by
        intro root
        obtain ⟨chain, ok⟩ := rooted.2 root
        cases found.symm.trans ok
      simp [other, inner, rootless]
    | ok chain =>
      have ha := ancestorChain_eq_ok_iff.1 found
      have registered := ha.contains a ha.mem_self
      have root := rooted.1 ⟨chain, found⟩
      simp [other, inner, registered, root, ha.mem_iff]

theorem isA_refl (registered : r.contains a = true) : r.isA a a = true :=
  isA_iff.2 ⟨registered, Or.inl rfl⟩

theorem isA_root (registered : r.contains a = true) : r.isA a .root = true :=
  isA_iff.2 ⟨registered, Or.inr (Or.inl rfl)⟩

theorem isA_contains (h : r.isA a b = true) : r.contains a = true ∧ r.contains b = true := by
  obtain ⟨registered, rfl | rfl | ⟨-, descends⟩⟩ := isA_iff.1 h
  · exact ⟨registered, registered⟩
  · exact ⟨registered, contains_root⟩
  · exact ⟨registered, descends.contains registered⟩

theorem isA_of_root (h : r.isA .root b = true) : b = .root := by
  obtain ⟨-, rfl | rfl | ⟨-, descends⟩⟩ := isA_iff.1 h
  · rfl
  · rfl
  · exact descends.of_root

theorem isA_trans (h : r.isA a b = true) (h' : r.isA b c = true) : r.isA a c = true := by
  obtain ⟨registered, rfl | rfl | ⟨rooted, descends⟩⟩ := isA_iff.1 h
  · exact h'
  · rw [isA_of_root h']
    exact isA_root registered
  · obtain ⟨-, rfl | rfl | ⟨-, further⟩⟩ := isA_iff.1 h'
    · exact h
    · exact isA_root registered
    · exact isA_iff.2 ⟨registered, Or.inr (Or.inr ⟨rooted, descends.trans further⟩)⟩

theorem isA_antisymm (h : r.isA a b = true) (h' : r.isA b a = true) : a = b := by
  obtain ⟨-, rfl | rfl | ⟨rooted, descends⟩⟩ := isA_iff.1 h
  · rfl
  · exact isA_of_root h'
  · obtain ⟨-, rfl | rfl | ⟨-, back⟩⟩ := isA_iff.1 h'
    · rfl
    · exact (isA_of_root h).symm
    · exact descends.antisymm back rooted

theorem isA_iff_of_rooted (rooted : r.Descends a .root) : r.isA a b = true ↔ r.Descends a b := by
  obtain ⟨chain, ha⟩ := exists_ancestry rooted
  have registered := ha.contains a ha.mem_self
  constructor
  · intro h
    obtain ⟨-, rfl | rfl | ⟨-, descends⟩⟩ := isA_iff.1 h
    · exact .refl
    · exact rooted
    · exact descends
  · intro descends
    exact isA_iff.2 ⟨registered, Or.inr (Or.inr ⟨rooted, descends⟩)⟩

/-- Inheritance is a partial order on the registered classes and the root class is its greatest
element, also where parents are unknown or go round in circles. No other class takes part in it.
For a class that has the root class above it, the order is that of its ancestors. -/
theorem isA_partial_order (r : Registry) :
    IsPartialOrder {c // r.contains c = true} (fun a b => r.isA a.1 b.1 = true) ∧
      (∀ c, r.contains c = true → r.isA c .root = true) ∧
      (∀ a b, r.contains a = false ∨ r.contains b = false → r.isA a b = false) ∧
      ∀ a b, r.Descends a .root → (r.isA a b = true ↔ r.Descends a b) := by
  refine ⟨?_, fun c => isA_root, ?_, ?_⟩
  · exact {
      refl := fun a => isA_refl a.2
      trans := fun a b c => isA_trans
      antisymm := fun a b h h' => Subtype.ext (isA_antisymm h h') }
  · intro a b stranger
    rw [Bool.eq_false_iff]
    intro related
    obtain ⟨ha, hb⟩ := isA_contains related
    simp [ha, hb] at stranger
  · intro a b rooted
    exact isA_iff_of_rooted rooted

end LazyBinding.Registry
