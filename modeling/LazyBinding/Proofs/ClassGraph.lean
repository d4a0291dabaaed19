import LazyBinding.Proofs.TypeDefinitions
import Mathlib.Data.Fintype.EquivFin

/-!
# Class graph

The edges between the classes of a registry: parents, imports and the classes of object-typed
fields. Parents and imports have to be compiled before a class; fields may refer back. A class is
grounded if everything it depends on is in order all the way down, which is the case exactly if no
class below it is malformed or lies on a cycle.
-/
namespace LazyBinding.Registry

open Relation (ReflTransGen TransGen)

variable {r : Registry}

/-- An import of the class names `t`. -/
def Imports (r : Registry) (c t : ClassPath) : Prop :=
  ∃ d reference, r.get? c = some d ∧ .imports reference ∈ d.declarations ∧
    r.resolve reference c = some t

/-- A field that the class declares, overridden later or not, holds objects of class `t`. -/
def FieldRefers (r : Registry) (c t : ClassPath) : Prop :=
  ∃ d name definition type, r.get? c = some d ∧ .field name definition ∈ d.declarations ∧
    FieldType.parse r c definition = .ok type ∧ type.class? = some t

/-- The class cannot be compiled before `t` is. -/
def DependsOn (r : Registry) (c t : ClassPath) : Prop := r.HasParent c t ∨ r.Imports c t

/-- Any edge of the class graph. -/
def RefersTo (r : Registry) (c t : ClassPath) : Prop := r.DependsOn c t ∨ r.FieldRefers c t

/-- A declaration that the class `c` may make. -/
def Admissible (r : Registry) (c : ClassPath) : Declaration → Prop
  | .field name definition => name ≠ "" ∧ ∃ type, FieldType.parse r c definition = .ok type
  | .imports reference => ∃ t, r.resolve reference c = some t ∧ ¬ r.Descends c t

/-- A class in order: what can be said of it without looking at the classes it refers to, and that
no cycle of parents and imports leads through it. -/
structure Sound (r : Registry) (c : ClassPath) : Prop where
  registered : r.contains c = true
  rooted : r.Descends c .root
  admissible : ∀ d, r.get? c = some d → ∀ x ∈ d.declarations, r.Admissible c x
  acyclic : ¬ TransGen r.DependsOn c c

/-- A class in order whose parent and imports are grounded. -/
inductive Grounded (r : Registry) : ClassPath → Prop where
  | intro {c d} (registered : r.get? c = some d)
      (parent : c ≠ .root → ∃ p, r.HasParent c p)
      (admissible : ∀ x ∈ d.declarations, r.Admissible c x)
      (below : ∀ t, r.DependsOn c t → Grounded r t) : Grounded r c

theorem Imports.contains {c t : ClassPath} (h : r.Imports c t) : r.contains t = true := by
  obtain ⟨d, reference, -, -, h⟩ := h
  exact resolve_contains h

theorem DependsOn.contains {c t : ClassPath} (h : r.DependsOn c t) : r.contains t = true :=
  h.elim HasParent.contains Imports.contains

theorem FieldRefers.contains {c t : ClassPath} (h : r.FieldRefers c t) : r.contains t = true := by
  obtain ⟨d, name, definition, type, -, -, hp, ht⟩ := h
  exact FieldType.class_contains hp ht

theorem DependsOn.of_descent {c a : ClassPath} (h : TransGen r.HasParent c a) :
    TransGen r.DependsOn c a :=
  TransGen.mono (fun _ _ => Or.inl) _ _ h

theorem Descends.dependsOn {c a : ClassPath} (h : r.Descends c a) :
    ReflTransGen r.DependsOn c a :=
  ReflTransGen.mono (fun _ _ => Or.inl) _ _ h

theorem RefersTo.of_dependsOn {c t : ClassPath} (h : ReflTransGen r.DependsOn c t) :
    ReflTransGen r.RefersTo c t :=
  ReflTransGen.mono (fun _ _ => Or.inl) _ _ h

namespace Grounded

theorem all_below {c t : ClassPath} (h : r.Grounded c) (ht : ReflTransGen r.DependsOn c t) :
    r.Grounded t := by
  induction ht with
  | refl => exact h
  | tail _ hd ih =>
    cases ih with
    | intro _ _ _ below => exact below _ hd

theorem acyclic {c : ClassPath} (h : r.Grounded c) : ¬ TransGen r.DependsOn c c := by
  induction h with
  | @intro c d _ _ _ _ ih =>
    intro hc
    obtain ⟨t, ht, htc⟩ := TransGen.head'_iff.1 hc
    exact ih t ht (TransGen.tail'_iff.2 ⟨c, htc, ht⟩)

theorem rooted {c : ClassPath} (h : r.Grounded c) : r.Descends c .root := by
  induction h with
  | @intro c d _ parent _ _ ih =>
    by_cases hc : c = .root
    · rw [hc]; exact .refl
    · obtain ⟨p, hp⟩ := parent hc
      exact .head hp (ih p (Or.inl hp))

theorem sound {c : ClassPath} (h : r.Grounded c) : r.Sound c := by
  refine ⟨?_, h.rooted, ?_, h.acyclic⟩
  · cases h with
    | intro registered => exact contains_iff.2 ⟨_, registered⟩
  · intro d hd
    cases h with
    | intro registered _ admissible => cases hd.symm.trans registered; exact admissible

end Grounded

/-- Dependencies among the classes below a class, restricted to those classes. -/
private abbrev Below (r : Registry) (c : ClassPath) := {u // ReflTransGen r.DependsOn c u}

private theorem finite_below (r : Registry) (c : ClassPath) : Finite (Below r c) := by
  refine Finite.of_injective (β := {u // u ∈ c :: r.ids}) (fun u => ⟨u.1, ?_⟩) ?_
  · rcases ReflTransGen.cases_tail u.2 with h | ⟨t, -, ht⟩
    · simp [h]
    · exact List.mem_cons_of_mem _ (mem_ids_iff.2 (contains_iff.1 ht.contains))
  · intro u v h
    exact Subtype.ext (by simpa using h)

/-- Without cycles below it, a class is grounded if all classes below it are in order. -/
theorem grounded_of_sound {c : ClassPath} (h : ∀ u, ReflTransGen r.DependsOn c u → r.Sound u) :
    r.Grounded c := by
  let Later (u v : Below r c) : Prop := TransGen r.DependsOn v.1 u.1
  have : Finite (Below r c) := finite_below r c
  have : IsTrans (Below r c) Later := ⟨fun _ _ _ huv hvw => hvw.trans huv⟩
  have : Std.Irrefl Later := ⟨fun u hu => (h u.1 u.2).acyclic hu⟩
  have wf : WellFounded Later := Finite.wellFounded_of_trans_of_irrefl Later
  have all : ∀ u : Below r c, r.Grounded u.1 := by
    intro u
    induction u using wf.induction with
    | h u ih =>
      have hu := h u.1 u.2
      obtain ⟨d, hd⟩ := contains_iff.1 hu.registered
      refine .intro hd ?_ (hu.admissible d hd) fun t ht => ?_
      · intro hne
        rcases ReflTransGen.cases_head hu.rooted with he | ⟨p, hp, -⟩
        · exact absurd he hne
        · exact ⟨p, hp⟩
      · exact ih ⟨t, u.2.tail ht⟩ (.single ht)
  exact all ⟨c, .refl⟩

end LazyBinding.Registry
