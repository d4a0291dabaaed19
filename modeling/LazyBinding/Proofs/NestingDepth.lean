import LazyBinding.Proofs.CompiledTables

/-!
# Nesting depth

Each level of nested work holds a class that was neither cached nor locked before, and each class
that a queue adds was not cached before. So the levels and the budget that a compilation allows are
never used up.
-/
namespace LazyBinding

variable {r : Registry} {cache cache' : SchemaCache} {chain done : List ClassPath}
variable {cls : ClassPath}

theorem length_filter_lt {α : Type} {l : List α} {p q : α → Bool} {a : α}
    (hpq : ∀ x, p x = true → q x = true) (ha : a ∈ l) (hq : q a = true) (hp : p a = false) :
    (l.filter p).length < (l.filter q).length := by
  have h : l.filter p = (l.filter q).filter p := by
    rw [List.filter_filter]
    refine List.filter_congr fun x _ => ?_
    cases hx : p x with
    | true => simp [hpq x hx]
    | false => rfl
  rw [h]
  exact List.length_filter_lt_length_iff_exists.2 ⟨a, List.mem_filter.2 ⟨ha, hq⟩, by simp [hp]⟩

theorem Registry.uncached_pos (registered : r.contains cls = true)
    (absent : cache.has cls = false) : 0 < r.uncached cache := by
  refine List.length_filter_pos_iff.2 ⟨cls, ?_, by simp [absent]⟩
  simpa [Registry.contains] using registered

theorem Registry.uncached_lt (mono : ∀ k, cache.has k = true → cache'.has k = true)
    (registered : r.contains cls = true) (absent : cache.has cls = false)
    (cached : cache'.has cls = true) : r.uncached cache' < r.uncached cache := by
  refine length_filter_lt (a := cls) (fun k hk => ?_) ?_ (by simp [absent]) (by simp [cached])
  · cases hc : cache.has k with
    | true => simp [mono k hc] at hk
    | false => rfl
  · simpa [Registry.contains] using registered

theorem Registry.free_lt (mono : ∀ k, cache.has k = true → cache'.has k = true)
    (locks : ∀ k, cache.isLocked k = true → cache'.isLocked k = true)
    (registered : r.contains cls = true) (absent : cache.has cls = false)
    (unlocked : cache.isLocked cls = false)
    (taken : cache'.has cls = true ∨ cache'.isLocked cls = true) : r.free cache' < r.free cache := by
  refine length_filter_lt (a := cls) (fun k hk => ?_) ?_ (by simp [absent, unlocked])
    (by rcases taken with taken | taken <;> simp [taken])
  · simp only [Bool.and_eq_true, Bool.not_eq_true'] at hk ⊢
    refine ⟨?_, ?_⟩
    · exact Bool.eq_false_iff.2 fun hc => by simp [mono k hc] at hk
    · exact Bool.eq_false_iff.2 fun hc => by simp [locks k hc] at hk
  · simpa [Registry.contains] using registered

namespace Progress

theorem Framed.free_lt {p : Progress} {q : ClassPath} (h : Framed cache chain done p)
    (hq : q ∈ p.held) (registered : ∀ c ∈ chain, r.contains c = true)
    (free : ∀ c ∈ chain, cache.isLocked c = false) : r.free p.cache < r.free cache := by
  obtain ⟨hmem, habsent⟩ := h.mem_held_iff.1 hq
  refine Registry.free_lt (fun k => h.grown.mono) (fun k hk => ?_) (registered q hmem) ?_
    (free q hmem) (Or.inr (h.isLocked_iff.2 (Or.inr ⟨hmem, habsent⟩)))
  · exact h.isLocked_iff.2 (Or.inl (SchemaCache.isLocked_iff.1 hk))
  · exact Bool.eq_false_iff.2 fun hc => by simpa [habsent] using h.grown.mono hc

end Progress

namespace Attempt

/-- Only work that is allowed fewer levels than there are free classes can run out of them. -/
theorem le_free_of_tooDeep {depth : Nat} (h : (make r depth cls cache).result = .error .tooDeep) :
    depth ≤ r.free cache := by
  induction depth generalizing cls cache with
  | zero => exact Nat.zero_le _
  | succ depth ih =>
    have hreplay : Ends (fun _ => True) (fun s => s.stop = .tooDeep → depth < r.free cache)
        (Progress.replay r (make r depth) cls cache) := by
      refine Progress.replay_ends (fun _ _ hs => by cases hs) (fun _ _ _ _ hs => by cases hs) ?_
      intro chain ha hfree
      have frame := Progress.walk_framed (r := r) (make_framed r depth) ha.nodup hfree
      have walk := frame.failing (fun s => s.stop = .tooDeep → depth < r.free cache)
        fun done q rest d ds x more p s _ _ _ ⟨hp, hq⟩ hx hs => by
          cases hx with
          | tooDeep _ _ _ made =>
            exact Nat.lt_of_le_of_lt (ih made) (hp.free_lt hq ha.contains hfree)
          | unnamed | unparsed | unresolved | circular | imported | missing => cases hs
      refine (walk.ends ha.contains (Progress.framed_opening ha.nodup hfree)).imp ?_ fun _ => id
      intro p hp
      exact ⟨hp.visited cls ha.mem_self, trivial⟩
    obtain ⟨s, hs, hstop⟩ := make_error h
    rw [hs] at hreplay
    exact hreplay hstop

/-- The levels that a compilation allows suffice. -/
theorem make_ne_tooDeep (r : Registry) (cls : ClassPath) (cache : SchemaCache) :
    (make r (r.free cache + 1) cls cache).result ≠ .error .tooDeep := by
  intro h
  have := le_free_of_tooDeep h
  omega

theorem settle_ne_tooDeep {compiled : OrderedSet ClassPath} (budget : Nat)
    (queue : List ClassPath) (registered : ∀ c ∈ queue, r.contains c = true)
    (bound : r.uncached cache ≤ budget) :
    (settle r budget queue cache compiled).result ≠ .error .tooDeep := by
  fun_induction settle r budget queue cache compiled with
  | case1 => simp
  | case2 cache compiled budget cls rest hc ih =>
    exact ih (fun c hmem => registered c (List.mem_cons_of_mem _ hmem)) bound
  | case3 cache compiled cls rest hc =>
    have := Registry.uncached_pos (registered cls (by simp)) (by simpa using hc)
    omega
  | case4 cache compiled cls rest hc budget nested compiled' stop hs =>
    intro h
    cases h
    exact make_ne_tooDeep r cls cache hs
  | case5 cache compiled cls rest hc budget nested compiled' pending hs ih =>
    have hframed := make_framed r (r.free cache + 1) cls cache
    have hlt : r.uncached nested.cache < r.uncached cache :=
      Registry.uncached_lt (fun k => hframed.grown.mono) (registered cls (by simp))
        (by simpa using hc) (has_of_make hs)
    refine ih (fun c hmem => ?_) (by omega)
    rcases List.mem_append.1 hmem with hmem | hmem
    · exact registered c (List.mem_cons_of_mem _ hmem)
    · exact pending_contains hs hmem

theorem whole_ne_tooDeep {pending : OrderedSet ClassPath}
    (made : (first r cache cls).result = .ok pending) :
    (whole r cache cls pending).result ≠ .error .tooDeep :=
  settle_ne_tooDeep _ pending (fun _ hmem => pending_contains made hmem) le_rfl

end Attempt

end LazyBinding
