import LazyBinding.Proofs.Ancestry
import Mathlib.Data.List.Chain

/-!
# The walk to the root

The search for an ancestry as a walk up the parents that nothing bounds. It ends all the same,
because each class on its way is a new one, and `ancestorChain` gives what it ends with: the path
from the root down to the class, or else why there is none.
-/
namespace LazyBinding.Registry

variable {r : Registry}

/-- A walk up the parents comes from the classes `below`, nearest first, and ends with the result.
A walk that never ends has none. -/
inductive Climbs (r : Registry) (start : ClassPath) :
    List ClassPath → ClassPath → Except SchemaError (List ClassPath) → Prop where
  | unregistered {below c} (h : r.contains c = false) :
      Climbs r start below c (.error (.badSchema c .notRegistered))
  | metAgain {below c} (registered : r.contains c = true) (met : c ∈ below) :
      Climbs r start below c (.error (.badSchema start .inheritanceLoop))
  | arrived {below} (fresh : .root ∉ below) : Climbs r start below .root (.ok (.root :: below))
  | dangling {below c d reference} (hd : r.get? c = some d) (fresh : c ∉ below) (inner : c ≠ .root)
      (names : d.parent = some reference) (h : r.resolve reference c = none) :
      Climbs r start below c (.error (.badSchema c (.unknownParent reference)))
  | up {below c p result} (fresh : c ∉ below) (h : r.HasParent c p)
      (later : Climbs r start (c :: below) p result) : Climbs r start below c result

variable {start c : ClassPath} {below chain : List ClassPath}

theorem parent?_eq_error {d : ClassDecl} {e : SchemaError} (h : r.parent? d = .error e) :
    ∃ reference, d.parent = some reference ∧ r.resolve reference d.id = none ∧
      e = .badSchema d.id (.unknownParent reference) := by
  simp only [parent?] at h
  split at h
  · cases h
  · next reference names =>
    split at h
    · cases h
    · next unknown =>
      cases h
      exact ⟨reference, names, unknown, rfl⟩

theorem HasParent.resolves {p : ClassPath} {d : ClassDecl} {reference : String}
    (h : r.HasParent c p) (hd : r.get? c = some d) (names : d.parent = some reference) :
    r.resolve reference c = some p := by
  obtain ⟨d', hd', -, hp⟩ := h
  cases hd.symm.trans hd'
  simp only [parent?, names, get?_id hd] at hp
  cases resolved : r.resolve reference c with
  | none => simp [resolved] at hp
  | some q => simpa [resolved] using hp

namespace Climbs

variable {result result' : Except SchemaError (List ClassPath)}

theorem unique (h : r.Climbs start below c result) (h' : r.Climbs start below c result') :
    result = result' := by
  induction h with
  | unregistered absent =>
    cases h' with
    | unregistered => rfl
    | metAgain registered => simp [absent] at registered
    | arrived => simp [contains_root] at absent
    | dangling hd => simp [contains_iff.2 ⟨_, hd⟩] at absent
    | up _ hp => simp [hp.registered] at absent
  | metAgain registered met =>
    cases h' with
    | unregistered absent => simp [absent] at registered
    | metAgain => rfl
    | arrived fresh => exact absurd met fresh
    | dangling _ fresh => exact absurd met fresh
    | up fresh => exact absurd met fresh
  | arrived fresh =>
    cases h' with
    | unregistered absent => simp [contains_root] at absent
    | metAgain _ met => exact absurd met fresh
    | arrived => rfl
    | dangling _ _ inner => exact absurd rfl inner
    | up _ hp => exact absurd rfl hp.ne_root
  | dangling hd fresh inner names unknown =>
    cases h' with
    | unregistered absent => simp [contains_iff.2 ⟨_, hd⟩] at absent
    | metAgain _ met => exact absurd met fresh
    | arrived => exact absurd rfl inner
    | dangling hd' _ _ names' =>
      cases hd.symm.trans hd'
      cases names.symm.trans names'
      rfl
    | up _ hp => simp [hp.resolves hd names] at unknown
  | up fresh hp _ ih =>
    cases h' with
    | unregistered absent => simp [hp.registered] at absent
    | metAgain _ met => exact absurd met fresh
    | arrived => exact absurd rfl hp.ne_root
    | dangling hd _ _ names unknown => simp [hp.resolves hd names] at unknown
    | up _ hp' later =>
      cases hp.unique hp'
      exact ih later

theorem ancestry (h : r.Climbs start below c (.ok chain)) :
    ∃ above, r.Ancestry c above ∧ chain = above ++ below := by
  generalize hresult : Except.ok chain = result at h
  induction h with
  | unregistered => cases hresult
  | metAgain => cases hresult
  | arrived => cases hresult; exact ⟨[.root], .root, rfl⟩
  | dangling => cases hresult
  | @up below c p result _ hp _ ih =>
    obtain ⟨above, ha, rfl⟩ := ih hresult
    exact ⟨above ++ [c], .child hp ha, by simp⟩

theorem badSchema {e : SchemaError} (h : r.Climbs start below c (.error e)) :
    ∃ cls fault, e = .badSchema cls fault := by
  generalize hresult : Except.error e = result at h
  induction h with
  | unregistered => cases hresult; exact ⟨_, _, rfl⟩
  | metAgain => cases hresult; exact ⟨_, _, rfl⟩
  | arrived => cases hresult
  | dangling => cases hresult; exact ⟨_, _, rfl⟩
  | up _ _ _ ih => exact ih hresult

end Climbs

theorem Ancestry.climbs (h : r.Ancestry c chain) (fresh : ∀ u ∈ chain, u ∉ below) :
    r.Climbs start below c (.ok (chain ++ below)) := by
  induction h generalizing below with
  | root => exact .arrived (fresh _ (List.mem_singleton_self _))
  | @child c p chain hp ha ih =>
    have new : c ∉ chain := by
      intro known
      exact (List.nodup_append.1 (Ancestry.child hp ha).nodup).2.2 c known c (by simp) rfl
    rw [List.append_assoc]
    refine .up (fresh c (by simp)) hp (ih fun u hu known => ?_)
    rcases List.mem_cons.1 known with rfl | known
    · exact new hu
    · exact fresh u (List.mem_append_left _ hu) known

/-- A walk with enough steps left ends as one without a bound: the classes that it has met are
different registered ones, so they cannot use up the steps. -/
theorem climbs_climb {steps : Nat} (distinct : below.Nodup)
    (registered : ∀ b ∈ below, r.contains b = true)
    (enough : r.classes.length + 1 ≤ steps + below.length) :
    r.Climbs start below c (r.climb start steps below c) := by
  induction steps generalizing below c with
  | zero =>
    have known : below ⊆ r.ids := fun b hb => by
      simpa [Registry.contains] using registered b hb
    have hle := distinct.length_le_of_subset known
    simp only [ids, List.length_map] at hle
    omega
  | succ steps ih =>
    cases hd : r.get? c with
    | none =>
      have absent : r.contains c = false := by
        rw [Bool.eq_false_iff, ne_eq, contains_iff, hd]
        simp
      simp only [climb, hd]
      exact .unregistered absent
    | some d =>
      have here : r.contains c = true := contains_iff.2 ⟨d, hd⟩
      by_cases met : c ∈ below
      · simp only [climb, hd, if_pos met]
        exact .metAgain here met
      · by_cases root : c = .root
        · subst root
          simp only [climb, hd, if_neg met]
          exact .arrived met
        · have inner : ¬ c.isRoot = true := by simpa [ClassPath.isRoot] using root
          cases hp : r.parent? d with
          | error e =>
            obtain ⟨reference, names, unknown, rfl⟩ := parent?_eq_error hp
            simp only [climb, hd, if_neg met, if_neg inner, hp]
            rw [get?_id hd] at unknown ⊢
            exact .dangling hd met root names unknown
          | ok p =>
            simp only [climb, hd, if_neg met, if_neg inner, hp]
            refine .up met ⟨d, hd, root, hp⟩ (ih ?_ ?_ ?_)
            · exact List.nodup_cons.2 ⟨met, distinct⟩
            · exact List.forall_mem_cons.2 ⟨here, registered⟩
            · rw [List.length_cons]
              omega

theorem climbs_ancestorChain (r : Registry) (c : ClassPath) :
    r.Climbs c [] c (r.ancestorChain c) :=
  climbs_climb .nil (by simp) (by simp)

theorem ancestorChain_eq_ok_iff : r.ancestorChain c = .ok chain ↔ r.Ancestry c chain := by
  have ends := climbs_ancestorChain r c
  constructor
  · intro found
    rw [found] at ends
    obtain ⟨above, ha, rfl⟩ := ends.ancestry
    simpa using ha
  · intro h
    simpa using ends.unique (h.climbs (by simp))

/-! ### Lineages -/

/-- A path of parents as it is written, from the root down to the class. -/
structure IsLineage (r : Registry) (c : ClassPath) (chain : List ClassPath) : Prop where
  first : chain.head? = some .root
  last : chain.getLast? = some c
  distinct : chain.Nodup
  parents : chain.IsChain fun p u => r.HasParent u p
  /-- Cut after any of its classes, it is what that class has for a chain. -/
  cuts : ∀ before u, before ++ [u] <+: chain → r.ancestorChain u = .ok (before ++ [u])

namespace Ancestry

theorem begins (h : r.Ancestry c chain) : chain.head? = some .root := by
  induction h with
  | root => rfl
  | child _ _ ih => rw [List.head?_append, ih, Option.some_or]

theorem isChain (h : r.Ancestry c chain) : chain.IsChain fun p u => r.HasParent u p := by
  induction h with
  | root => exact .singleton _
  | @child c p chain hp ha ih =>
    refine List.isChain_append.2 ⟨ih, .singleton _, ?_⟩
    intro q hq u hu
    obtain ⟨before, rfl⟩ := ha.ends
    rw [List.getLast?_concat] at hq
    cases hq
    cases hu
    exact hp

theorem isLineage (h : r.Ancestry c chain) : r.IsLineage c chain where
  first := h.begins
  last := by
    obtain ⟨before, rfl⟩ := h.ends
    exact List.getLast?_concat
  distinct := h.nodup
  parents := h.isChain
  cuts := by
    rintro before u ⟨rest, rfl⟩
    rw [List.append_assoc] at h
    exact ancestorChain_eq_ok_iff.2 h.cut.1

end Ancestry

theorem exists_ancestorChain_iff :
    (∃ chain, r.ancestorChain c = .ok chain) ↔ r.Descends c .root := by
  simp only [ancestorChain_eq_ok_iff]
  constructor
  · rintro ⟨chain, h⟩
    exact h.mem_iff.1 (List.mem_of_mem_head? h.begins)
  · exact exists_ancestry

/-- The walk from a class ends, whatever its parents lead to, and the chain of the class is what it
ends with. Where the parents lead to the root, this is the path there, written from the root down;
anywhere else it is a bad schema. -/
theorem ancestorChain_exact (r : Registry) (c : ClassPath) :
    (∀ result, r.Climbs c [] c result ↔ result = r.ancestorChain c) ∧
      ((∃ chain, r.ancestorChain c = .ok chain) ↔ r.Descends c .root) ∧
      (∀ chain, r.ancestorChain c = .ok chain → r.IsLineage c chain) ∧
      (¬ r.Descends c .root → ∃ cls fault, r.ancestorChain c = .error (.badSchema cls fault)) := by
  have ends := climbs_ancestorChain r c
  refine ⟨fun result => ?_, exists_ancestorChain_iff, ?_, ?_⟩
  · constructor
    · intro climbs
      exact climbs.unique ends
    · rintro rfl
      exact ends
  · intro chain found
    exact (ancestorChain_eq_ok_iff.1 found).isLineage
  · intro rootless
    cases result : r.ancestorChain c with
    | ok chain => exact absurd (exists_ancestorChain_iff.1 ⟨chain, result⟩) rootless
    | error e =>
      rw [result] at ends
      obtain ⟨cls, fault, rfl⟩ := ends.badSchema
      exact ⟨cls, fault, rfl⟩

end LazyBinding.Registry
