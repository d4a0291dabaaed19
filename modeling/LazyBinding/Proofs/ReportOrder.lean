import LazyBinding.Proofs.ProblemReports
import LazyBinding.Proofs.RipeAnalysis
import Mathlib

/-!
# Reports stay in order

Classes and paths ascend strictly in the report of an analysis, so no line stands in it twice.
-/
namespace LazyBinding

instance : IsStrictTotalOrder ClassPath (· < ·) where
  irrefl a := String.lt_irrefl a.text
  trans _ _ _ := String.lt_trans
  trichotomous := by
    intro a b below above
    exact congrArg ClassPath.mk
      (Std.Trichotomous.trichotomous (r := (· < ·)) a.text b.text below above)

/-! ### Ascending keys -/

namespace Sorted

variable {κ α : Type}

def keys (entries : Sorted κ α) : List κ := entries.map Prod.fst

section

variable [LT κ]

def Ascending (members : List κ) : Prop := members.Pairwise (· < ·)

theorem Ascending.nodup [Std.Irrefl ((· < ·) : κ → κ → Prop)] {members : List κ}
    (h : Ascending members) : members.Nodup := by
  refine List.Pairwise.imp ?_ h
  rintro a _ below rfl
  exact Std.Irrefl.irrefl a below

end

variable [DecidableEq κ] [LT κ] [DecidableLT κ] {k : κ}

theorem keys_update (entries : Sorted κ α) (k : κ) (make : Option α → α) :
    keys (update entries k make) = insert (keys entries) k := by
  induction entries with
  | nil => rfl
  | cons entry rest ih =>
    obtain ⟨k', a⟩ := entry
    rw [update]
    change _ = insert (k' :: keys rest) k
    rw [insert]
    split
    · next heq =>
      rw [heq]
      rfl
    · split
      · rfl
      · exact congrArg (k' :: ·) ih

theorem ascending_insert [IsStrictTotalOrder κ (· < ·)] {members : List κ}
    (h : Ascending members) (k : κ) : Ascending (insert members k) := by
  induction members with
  | nil => exact List.pairwise_singleton _ k
  | cons k' rest ih =>
    obtain ⟨first, others⟩ := List.pairwise_cons.1 h
    rw [insert]
    by_cases heq : k = k'
    · rw [if_pos heq]
      exact h
    · rw [if_neg heq]
      by_cases below : k < k'
      · rw [if_pos below]
        refine List.pairwise_cons.2 ⟨?_, h⟩
        rintro j (_ | ⟨_, later⟩)
        · exact below
        · exact Trans.trans below (first j later)
      · rw [if_neg below]
        have above : k' < k := by
          by_contra notAbove
          exact heq (Std.Trichotomous.trichotomous k k' below notAbove)
        refine List.pairwise_cons.2 ⟨?_, ih others⟩
        intro j hj
        rcases mem_insert.1 hj with later | rfl
        · exact first j later
        · exact above

theorem forall_update {Q : α → Prop} {entries : Sorted κ α} {make : Option α → α}
    (h : ∀ entry ∈ entries, Q entry.2) (fresh : Q (make none))
    (known : ∀ a, Q a → Q (make (some a))) : ∀ entry ∈ update entries k make, Q entry.2 := by
  induction entries with
  | nil => simpa [update] using fresh
  | cons entry rest ih =>
    obtain ⟨k', a⟩ := entry
    obtain ⟨first, others⟩ := List.forall_mem_cons.1 h
    rw [update]
    split
    · exact List.forall_mem_cons.2 ⟨known a first, others⟩
    · split
      · exact List.forall_mem_cons.2 ⟨fresh, h⟩
      · exact List.forall_mem_cons.2 ⟨first, ih others⟩

end Sorted

namespace Report

variable {r : Report}

/-- Nothing stands in the report twice or out of order. -/
structure IsOrdered (r : Report) : Prop where
  missing : Sorted.Ascending (Sorted.keys r.missing)
  missing_paths : ∀ entry ∈ r.missing, Sorted.Ascending entry.2
  bad : Sorted.Ascending (Sorted.keys r.bad)
  bad_paths : ∀ entry ∈ r.bad, Sorted.Ascending (Sorted.keys entry.2)

theorem isOrdered_empty : empty.IsOrdered := by
  constructor
  · exact List.Pairwise.nil
  · simp [empty]
  · exact List.Pairwise.nil
  · simp [empty]

theorem IsOrdered.addMissing (h : r.IsOrdered) (cls : ClassPath) (path : String) :
    (r.addMissing cls path).IsOrdered := by
  constructor
  · rw [Report.addMissing, Sorted.keys_update]
    exact Sorted.ascending_insert h.missing cls
  · refine Sorted.forall_update h.missing_paths ?_ ?_
    · exact Sorted.ascending_insert List.Pairwise.nil path
    · intro paths ascending
      exact Sorted.ascending_insert ascending path
  · exact h.bad
  · exact h.bad_paths

theorem IsOrdered.addBad (h : r.IsOrdered) (cls : ClassPath) (path message : String) :
    (r.addBad cls path message).IsOrdered := by
  have put : ∀ fields : Sorted String String, Sorted.Ascending (Sorted.keys fields) →
      Sorted.Ascending (Sorted.keys (Sorted.put fields path message)) := by
    intro fields ascending
    rw [Sorted.put, Sorted.keys_update]
    exact Sorted.ascending_insert ascending path
  constructor
  · exact h.missing
  · exact h.missing_paths
  · rw [Report.addBad, Sorted.keys_update]
    exact Sorted.ascending_insert h.bad cls
  · exact Sorted.forall_update (Q := fun fields => Sorted.Ascending (Sorted.keys fields))
      h.bad_paths (put [] List.Pairwise.nil) put

end Report

/-! ### Entries -/

inductive ProblemKind where
  | undeclared
  | unconvertible

namespace Problem

variable {p q : Problem}

def kind : Problem → ProblemKind
  | .undeclared .. => .undeclared
  | .unconvertible .. => .unconvertible

/-- The class and the path under which a report files the problem. -/
def entry : Problem → ClassPath × String
  | .undeclared cls path => (cls, path)
  | .unconvertible cls path _ => (cls, path)

theorem samePlace_iff : p.SamePlace q ↔ p.kind = q.kind ∧ p.entry = q.entry := by
  cases p <;> cases q <;> simp [SamePlace, kind, entry]

end Problem

namespace Report

variable {r : Report}

/-- The entries of the report for problems of a kind. -/
def entries (r : Report) : ProblemKind → List (ClassPath × String)
  | .undeclared => r.missing.flatMap fun entry => entry.2.map fun path => (entry.1, path)
  | .unconvertible =>
    r.bad.flatMap fun entry => (Sorted.keys entry.2).map fun path => (entry.1, path)

theorem mem_entries {kind : ProblemKind} {e : ClassPath × String} :
    e ∈ r.entries kind ↔ ∃ p : Problem, p.kind = kind ∧ p.entry = e ∧ r.Lists p := by
  cases kind with
  | undeclared =>
    simp only [entries, List.mem_flatMap, List.mem_map]
    constructor
    · rintro ⟨⟨cls, paths⟩, listed, path, inside, rfl⟩
      exact ⟨.undeclared cls path, rfl, rfl, paths, listed, inside⟩
    · rintro ⟨p, kind, rfl, listed⟩
      cases p with
      | undeclared cls path =>
        obtain ⟨paths, listed, inside⟩ := listed
        exact ⟨(cls, paths), listed, path, inside, rfl⟩
      | unconvertible => cases kind
  | unconvertible =>
    simp only [entries, Sorted.keys, List.mem_flatMap, List.mem_map]
    constructor
    · rintro ⟨⟨cls, fields⟩, listed, path, ⟨⟨_, message⟩, inside, rfl⟩, rfl⟩
      exact ⟨.unconvertible cls _ message, rfl, rfl, fields, listed, message, inside, rfl⟩
    · rintro ⟨p, kind, rfl, listed⟩
      cases p with
      | undeclared => cases kind
      | unconvertible cls path =>
        obtain ⟨fields, listed, message, inside, -⟩ := listed
        exact ⟨(cls, fields), listed, path, ⟨(path, message), inside, rfl⟩, rfl⟩

theorem nodup_pairs {α : Type} {groups : Sorted ClassPath α} (paths : α → List String)
    (classes : Sorted.Ascending (Sorted.keys groups))
    (inside : ∀ group ∈ groups, Sorted.Ascending (paths group.2)) :
    (groups.flatMap fun group => (paths group.2).map fun path => (group.1, path)).Nodup := by
  refine List.nodup_flatMap.2 ⟨?_, ?_⟩
  · intro group listed
    exact (inside group listed).nodup.map fun _ _ same => (Prod.mk.inj same).2
  · refine (List.pairwise_map.1 classes).imp ?_
    intro group group' below both h h'
    obtain ⟨path, -, rfl⟩ := List.mem_map.1 h
    obtain ⟨path', -, same⟩ := List.mem_map.1 h'
    obtain ⟨same, -⟩ := Prod.mk.inj same
    rw [same] at below
    exact Std.Irrefl.irrefl _ below

theorem IsOrdered.entries_nodup (h : r.IsOrdered) (kind : ProblemKind) :
    (r.entries kind).Nodup := by
  cases kind with
  | undeclared => exact nodup_pairs id h.missing h.missing_paths
  | unconvertible => exact nodup_pairs Sorted.keys h.bad h.bad_paths

end Report

/-! ### Analyses -/

/-- An analysis that leaves a report in order. -/
def Analyser.KeepsOrder (inner : Analyser) : Prop :=
  ∀ (o : BoundObject) path {report : Report} s, report.IsOrdered →
    (inner o path report s).report.IsOrdered

theorem analyseItems_isOrdered {item : String → Value → Report → Session → AnalysedValue}
    (hi : ∀ path v {report : Report} s, report.IsOrdered → (item path v report s).report.IsOrdered)
    (path : String) (index : Nat) (items : List Value) {report : Report} (s : Session)
    (h : report.IsOrdered) : (analyseItems item path index items report s).report.IsOrdered := by
  induction items generalizing index report s with
  | nil => exact h
  | cons v rest ih => exact ih (index + 1) _ (hi _ v s h)

theorem analyseNested_isOrdered {inner : Analyser} (hi : inner.KeepsOrder) (n : Nat) (path : String)
    (v : Value) {report : Report} (s : Session) (h : report.IsOrdered) :
    (analyseNested inner n path v report s).report.IsOrdered := by
  induction n generalizing path v report s with
  | zero =>
    cases v with
    | object schema cls table data => exact hi ⟨schema, cls, table, data⟩ path s h
    | _ => exact h
  | succ n ih =>
    cases v with
    | array items => exact analyseItems_isOrdered ih path 0 items s h
    | _ => exact h

namespace BoundObject

theorem analyseField_isOrdered {inner : Analyser} (hi : inner.KeepsOrder) (path field : String)
    {a : Analysed} (h : a.report.IsOrdered) :
    (analyseField builder (some inner) path a field).report.IsOrdered := by
  have noted : (a.noted path field).IsOrdered := by
    unfold Analysed.noted
    split
    · exact h.addMissing _ _
    · exact h
  cases hv : a.object.slot? field with
  | none =>
    rw [analyseField_absent hv]
    exact h
  | some v =>
    rw [analyseField_stored hv]
    unfold Analysed.ofRead
    split
    · exact noted.addBad _ _ _
    · dsimp only
      split
      · exact analyseNested_isOrdered hi _ _ _ _ noted
      · exact noted

/-- An analysis of everything below an object adds its lines in order. -/
theorem analyseDeep_isOrdered (depth : Nat) : (analyseDeep builder depth).KeepsOrder := by
  induction depth with
  | zero =>
    intro o path report s h
    exact h
  | succ depth ih =>
    have fields : ∀ (fields : List String) path (a : Analysed), a.report.IsOrdered →
        (fields.foldl (analyseField builder (some (analyseDeep builder depth)) path)
          a).report.IsOrdered := by
      intro fields path
      induction fields with
      | nil => exact fun _ h => h
      | cons field rest others => exact fun _ h => others _ (analyseField_isOrdered ih path field h)
    intro o path report s h
    exact fields _ path _ h

theorem analyze_isOrdered {o : BoundObject} {s : Session} {report : Report}
    (analysed : (o.analyze true s).result = .ok report) : report.IsOrdered := by
  have ordered := analyseDeep_isOrdered levelLimit o "" s Report.isOrdered_empty
  unfold analyze analyzeWith at analysed
  rw [if_pos rfl] at analysed
  dsimp only at analysed
  split at analysed
  · cases analysed
    exact ordered
  · cases analysed

end BoundObject

end LazyBinding
