import LazyBinding.Proofs.Termination

/-!
# Nested work keeps its books

Work on a class hands back the classes that it has cached and those that it leaves to be compiled.
A compilation that fails erases the former, and one that goes on works off the latter. Both are
right only if the books are exact at every level, also where the work has been cut short by a
failure.
-/
namespace LazyBinding

variable {r : Registry} {cache : SchemaCache} {cls : ClassPath} {depth : Nat} {a : Attempt}

theorem SchemaCache.Extends.get? {c c' : SchemaCache} {new : List ClassPath} {k : ClassPath}
    {table : FieldTable} (h : c.Extends c' new) (found : c.get? k = some table) :
    c'.get? k = some table := by
  obtain ⟨added, ht, -⟩ := h.tables
  rw [SchemaCache.get?, ht]
  exact Dict.get?_append added found

namespace Attempt

/-- What work on a class has done to the cache is what it says that it has done: the locks and the
known tables are as before, the classes it names are those it has cached, and if it succeeds then it
names each class that a field of theirs waits for. -/
structure Accounts (r : Registry) (cache : SchemaCache) (a : Attempt) : Prop where
  locks : a.cache.locks = cache.locks
  kept : ∀ k table, cache.get? k = some table → a.cache.get? k = some table
  compiled : ∀ k, k ∈ a.compiled ↔ a.cache.has k = true ∧ cache.has k = false
  awaited : ∀ pending, a.result = .ok pending →
    ∀ k ∈ a.compiled, ∀ u, r.FieldRefers k u → a.cache.has u = true ∨ u ∈ pending

theorem Framed.mem_compiled_iff (h : a.Framed cache) {k : ClassPath} :
    k ∈ a.compiled ↔ a.cache.has k = true ∧ cache.has k = false := by
  constructor
  · intro hk
    exact ⟨h.grown.has_iff_or.2 (Or.inr hk), h.grown.absent k hk⟩
  · rintro ⟨hk, absent⟩
    exact h.grown.mem_of_new hk absent

theorem make_accounts (r : Registry) (depth : Nat) (cls : ClassPath) (cache : SchemaCache) :
    (make r depth cls cache).Accounts r cache := by
  have framed := make_framed r depth cls cache
  refine ⟨framed.locks, fun k table => framed.grown.get?, fun k => framed.mem_compiled_iff, ?_⟩
  intro pending made k hk u hu
  obtain ⟨cached, absent⟩ := framed.mem_compiled_iff.1 hk
  exact (make_delivers r depth cls cache pending made).1.fields k cached absent u hu

/-- Work on a class ends for every registry and every cache, and whenever it ends its books are
exact, on however many levels it lay and whether it has succeeded or failed. -/
theorem nested_work_accounts (r : Registry) (cls : ClassPath) (cache : SchemaCache) :
    (∃ a, Runs r (r.free cache + 1) cls cache a) ∧
      ∀ depth a, Runs r depth cls cache a → a.Accounts r cache := by
  constructor
  · exact ⟨_, runs_of_make (make_ne_tooDeep r cls cache)⟩
  · intro depth a ran
    cases ran.eq_make
    exact make_accounts r _ cls cache

end Attempt

end LazyBinding
