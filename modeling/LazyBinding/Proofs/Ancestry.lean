import LazyBinding.Registry
import Mathlib.Logic.Relation

/-!
# Ancestry

The parents of a registry as a relation, and the ancestry of a class as the path that it makes from
the root class down to it.
-/
namespace LazyBinding.Registry

open Relation (ReflTransGen TransGen)

variable {r : Registry}

private theorem snoc_eq_split {α : Type} {l done rest : List α} {a b : α}
    (h : l ++ [a] = done ++ b :: rest) :
    (l = done ∧ a = b ∧ rest = []) ∨ ∃ rest', rest = rest' ++ [a] ∧ l = done ++ b :: rest' := by
  rcases List.eq_nil_or_concat rest with rfl | ⟨rest', c, rfl⟩
  · obtain ⟨h, ha⟩ := List.append_inj' h rfl
    exact Or.inl ⟨h, List.singleton_inj.1 ha, rfl⟩
  · have h : l ++ [a] = (done ++ b :: rest') ++ [c] := by simpa using h
    obtain ⟨hl, ha⟩ := List.append_inj' h rfl
    cases List.singleton_inj.1 ha
    exact Or.inr ⟨rest', by simp, hl⟩

theorem contains_iff {c : ClassPath} : r.contains c = true ↔ ∃ d, r.get? c = some d := by
  rw [← Option.isSome_iff_exists]
  simp [contains, ids, get?, List.find?_isSome]

theorem mem_ids_iff {c : ClassPath} : c ∈ r.ids ↔ ∃ d, r.get? c = some d := by
  rw [← contains_iff]
  simp [contains]

theorem get?_root : r.get? .root = some .root := by
  simp [get?, classes, ClassDecl.root]

theorem contains_root : r.contains .root = true := contains_iff.2 ⟨_, get?_root⟩

theorem get?_id {c : ClassPath} {d : ClassDecl} (h : r.get? c = some d) : d.id = c := by
  simpa using List.find?_some h

private theorem lookup_contains {path : String} {t : ClassPath} (h : r.lookup path = some t) :
    r.contains t = true := by
  simp only [lookup] at h
  split at h
  · next hc => cases h; exact hc
  · cases h

theorem resolve_contains {reference : String} {source t : ClassPath}
    (h : r.resolve reference source = some t) : r.contains t = true := by
  simp only [resolve] at h
  split at h
  · exact lookup_contains h
  · split at h
    · cases h; exact contains_root
    · split at h
      · exact lookup_contains h
      · rcases Option.or_eq_some_iff.1 (by simpa using h) with h | ⟨-, h⟩
        · exact lookup_contains h
        · exact lookup_contains h

/-- The resolved parent of a class; the root class has none. -/
def HasParent (r : Registry) (c p : ClassPath) : Prop :=
  ∃ d, r.get? c = some d ∧ c ≠ .root ∧ r.parent? d = .ok p

theorem HasParent.registered {c p : ClassPath} (h : r.HasParent c p) : r.contains c = true := by
  obtain ⟨d, hd, -⟩ := h
  exact contains_iff.2 ⟨d, hd⟩

theorem HasParent.ne_root {c p : ClassPath} (h : r.HasParent c p) : c ≠ .root := by
  obtain ⟨-, -, inner, -⟩ := h
  exact inner

theorem HasParent.unique {c p q : ClassPath} (hp : r.HasParent c p) (hq : r.HasParent c q) :
    p = q := by
  obtain ⟨d, hd, -, hp⟩ := hp
  obtain ⟨e, he, -, hq⟩ := hq
  cases hd.symm.trans he
  cases hp.symm.trans hq
  rfl

theorem parent?_contains {d : ClassDecl} {p : ClassPath} (h : r.parent? d = .ok p) :
    r.contains p = true := by
  simp only [parent?] at h
  split at h
  · cases h; exact contains_root
  · split at h
    · next hp => cases h; exact resolve_contains hp
    · cases h

theorem HasParent.contains {c p : ClassPath} (h : r.HasParent c p) : r.contains p = true := by
  obtain ⟨d, -, -, hp⟩ := h
  exact parent?_contains hp

/-- Descends by parents, or is the class itself. -/
def Descends (r : Registry) : ClassPath → ClassPath → Prop := ReflTransGen r.HasParent

/-- The path of parents from the root down to a class. -/
inductive Ancestry (r : Registry) : ClassPath → List ClassPath → Prop where
  | root : Ancestry r .root [.root]
  | child {c p chain} : r.HasParent c p → Ancestry r p chain → Ancestry r c (chain ++ [c])

namespace Ancestry

theorem unique {c : ClassPath} {l l' : List ClassPath} (h : r.Ancestry c l)
    (h' : r.Ancestry c l') : l = l' := by
  induction h generalizing l' with
  | root =>
    cases h' with
    | root => rfl
    | child hp => exact absurd rfl hp.ne_root
  | child hp _ ih =>
    cases h' with
    | root => exact absurd rfl hp.ne_root
    | child hp' ha' =>
      cases hp.unique hp'
      rw [ih ha']

theorem ends {c : ClassPath} {l : List ClassPath} (h : r.Ancestry c l) :
    ∃ before, l = before ++ [c] := by
  cases h with
  | root => exact ⟨[], rfl⟩
  | child => exact ⟨_, rfl⟩

theorem mem_self {c : ClassPath} {l : List ClassPath} (h : r.Ancestry c l) : c ∈ l := by
  obtain ⟨before, rfl⟩ := h.ends
  simp

/-- Cutting an ancestry after one of its classes gives the ancestry of that class, and all classes
behind the cut descend from it. -/
theorem cut {c q : ClassPath} {done rest : List ClassPath}
    (h : r.Ancestry c (done ++ q :: rest)) :
    r.Ancestry q (done ++ [q]) ∧ ∀ u ∈ rest, TransGen r.HasParent u q := by
  generalize hl : done ++ q :: rest = l at h
  induction h generalizing rest with
  | root =>
    obtain ⟨rfl, rfl, rfl⟩ : done = [] ∧ q = .root ∧ rest = [] := by
      cases done <;> simp_all
    exact ⟨.root, by simp⟩
  | @child c p chain hp ha ih =>
    rcases snoc_eq_split hl.symm with ⟨rfl, rfl, rfl⟩ | ⟨rest, rfl, hchain⟩
    · exact ⟨.child hp ha, by simp⟩
    · obtain ⟨hq, hrest⟩ := ih hchain.symm
      refine ⟨hq, fun u hu => ?_⟩
      rcases List.mem_append.1 hu with hu | hu
      · exact hrest u hu
      · rw [List.mem_singleton.1 hu]
        -- The parent is the last class of the shorter path: the cut one or one behind it.
        obtain ⟨before, hb⟩ := ha.ends
        rcases snoc_eq_split (hb.symm.trans hchain) with ⟨-, rfl, -⟩ | ⟨rest, rfl, -⟩
        · exact .single hp
        · exact .head hp (hrest p (by simp))

theorem nodup {c : ClassPath} {l : List ClassPath} (h : r.Ancestry c l) : l.Nodup := by
  induction h with
  | root => simp
  | @child c p chain hp ha ih =>
    have hc : c ∉ chain := by
      intro hc
      obtain ⟨done, rest, rfl⟩ := List.append_of_mem hc
      have := congrArg List.length (ha.cut.1.unique (.child hp ha))
      simp at this
    exact List.nodup_append.2 ⟨ih, by simp, fun a ha b hb hab =>
      hc (by rwa [← List.mem_singleton.1 hb, ← hab])⟩

theorem contains {c : ClassPath} {l : List ClassPath} (h : r.Ancestry c l) :
    ∀ u ∈ l, r.contains u = true := by
  induction h with
  | root => simpa using contains_root
  | child hp _ ih =>
    intro u hu
    rcases List.mem_append.1 hu with hu | hu
    · exact ih u hu
    · rw [List.mem_singleton.1 hu]
      exact hp.registered

theorem mem_iff {c u : ClassPath} {l : List ClassPath} (h : r.Ancestry c l) :
    u ∈ l ↔ r.Descends c u := by
  constructor
  · intro hu
    induction h with
    | root => rw [List.mem_singleton.1 hu]; exact .refl
    | child hp _ ih =>
      rcases List.mem_append.1 hu with hu | hu
      · exact .head hp (ih hu)
      · rw [List.mem_singleton.1 hu]; exact .refl
  · intro hu
    induction hu using ReflTransGen.head_induction_on generalizing l with
    | refl => exact h.mem_self
    | head hp _ ih =>
      cases h with
      | root => exact absurd rfl hp.ne_root
      | child hp' ha =>
        cases hp.unique hp'
        exact List.mem_append_left _ (ih ha)

theorem parent {c p : ClassPath} {before : List ClassPath} (h : r.Ancestry c (before ++ [c]))
    (hp : r.HasParent c p) : r.Ancestry p before := by
  generalize hl : before ++ [c] = l at h
  cases h with
  | root => obtain ⟨-, -, hne, -⟩ := hp; exact absurd rfl hne
  | child hp' ha =>
    cases hp.unique hp'
    exact (List.append_inj' hl rfl).1 ▸ ha

theorem hasParent {c p : ClassPath} {before : List ClassPath}
    (h : r.Ancestry c (before ++ [p] ++ [c])) : r.HasParent c p := by
  generalize hl : before ++ [p] ++ [c] = l at h
  cases h with
  | root => exact absurd (congrArg List.length hl) (by simp)
  | child hp ha =>
    obtain ⟨front, hfront⟩ := ha.ends
    have hb : before ++ [p] = front ++ _ := (List.append_inj' hl rfl).1.trans hfront
    cases List.singleton_inj.1 (List.append_inj' hb rfl).2
    exact hp

theorem exists_parent {c : ClassPath} {l : List ClassPath} (h : r.Ancestry c l) (hne : c ≠ .root) :
    ∃ p, r.HasParent c p := by
  cases h with
  | root => exact absurd rfl hne
  | child hp => exact ⟨_, hp⟩

end Ancestry

theorem exists_ancestry {c : ClassPath} (h : r.Descends c .root) : ∃ l, r.Ancestry c l := by
  induction h using ReflTransGen.head_induction_on with
  | refl => exact ⟨_, .root⟩
  | head hp _ ih =>
    obtain ⟨l, hl⟩ := ih
    exact ⟨_, .child hp hl⟩

end LazyBinding.Registry
