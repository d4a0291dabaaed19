import LazyBinding.Proofs.CacheGrowth
import LazyBinding.Proofs.CompilationSteps

/-!
# Compilation is a transaction

Work on a class holds locks on those classes of its ancestry that are not cached yet, and nested
work does not touch a locked class. So the classes locked are at any time exactly those that are
left to visit, every stop can be undone, and a compilation either only appends tables or leaves the
cache as it was.
-/
namespace LazyBinding

variable {r : Registry} {nested : ClassPath → SchemaCache → Attempt}
variable {cache : SchemaCache} {chain done : List ClassPath} {cls : ClassPath}

/-- Nested work appends tables of classes that were not locked and leaves the locks alone. -/
structure Attempt.Framed (cache : SchemaCache) (a : Attempt) : Prop where
  grown : cache.Extends a.cache a.compiled
  locks : a.cache.locks = cache.locks

namespace Progress

/-- The work on a class with ancestry `chain` after the classes in `done`: locked, apart from what
was locked before, is exactly what is not cached yet. -/
structure Framed (cache : SchemaCache) (chain done : List ClassPath) (p : Progress) : Prop where
  grown : cache.Extends p.cache p.compiled
  locks : p.cache.locks = cache.locks ++ p.held
  held : p.held = chain.filter fun c => !p.cache.has c
  visited : ∀ c ∈ done, p.cache.has c = true

/-- What a stop leaves can be undone. -/
structure Undoable (cache : SchemaCache) (p : Progress) : Prop where
  grown : cache.Extends p.cache p.compiled
  locks : p.cache.locks = cache.locks ++ p.held
  free : ∀ c ∈ p.held, c ∉ cache.locks

theorem get?_finish (p : Progress) (q c : ClassPath) :
    (p.finish q).cache.get? c = if c = q then some p.working else p.cache.get? c := by
  have htables : (p.finish q).cache.tables = Dict.put p.cache.tables q p.working := by
    unfold finish
    dsimp only
    split <;> rfl
  split
  · next h => rw [h, SchemaCache.get?, htables, Dict.get?_put_self]
  · next h => rw [SchemaCache.get?, htables, Dict.get?_put_of_ne _ _ h, SchemaCache.get?]

theorem has_finish {p : Progress} {q c : ClassPath} :
    (p.finish q).cache.has c = true ↔ c = q ∨ p.cache.has c = true := by
  rw [SchemaCache.has_iff, get?_finish]
  split
  · next h => simp [h]
  · next h => simp [h, SchemaCache.has_iff]

namespace Framed

variable {p : Progress}

theorem mem_held_iff (h : Framed cache chain done p) {c : ClassPath} :
    c ∈ p.held ↔ c ∈ chain ∧ p.cache.has c = false := by
  simp [h.held]

theorem isLocked_iff (h : Framed cache chain done p) {c : ClassPath} :
    p.cache.isLocked c = true ↔ c ∈ cache.locks ∨ c ∈ chain ∧ p.cache.has c = false := by
  rw [SchemaCache.isLocked_iff, h.locks, List.mem_append, h.mem_held_iff]

theorem undoable (free : ∀ c ∈ chain, cache.isLocked c = false)
    (h : Framed cache chain done p) : Undoable cache p where
  grown := h.grown
  locks := h.locks
  free c hc := SchemaCache.isLocked_eq_false_iff.1 (free c (h.mem_held_iff.1 hc).1)

theorem adopt (h : Framed cache chain done p) {a : Attempt} (ha : a.Framed p.cache) :
    Framed cache chain done (p.adopt a) where
  grown := h.grown.trans ha.grown fun c hc => by
    rw [h.isLocked_iff]
    exact Or.inl (SchemaCache.isLocked_iff.1 hc)
  locks := ha.locks.trans h.locks
  held := by
    refine h.held.trans (List.filter_congr fun c hc => ?_)
    cases habsent : p.cache.has c with
    | true =>
      have := ha.grown.mono habsent
      simp [Progress.adopt, this]
    | false =>
      have hlocked : p.cache.isLocked c = true := h.isLocked_iff.2 (Or.inr ⟨hc, habsent⟩)
      have : a.cache.has c = false := Bool.eq_false_iff.2 fun hnew => by
        simpa [hlocked] using ha.grown.free c (ha.grown.mem_of_new hnew habsent)
      simp [Progress.adopt, this]
  visited c hc := ha.grown.mono (h.visited c hc)

theorem finish (h : Framed cache chain done p) (distinct : chain.Nodup)
    (free : ∀ c ∈ chain, cache.isLocked c = false) {q : ClassPath} (hq : q ∈ p.held) :
    Framed cache chain (done ++ [q]) (p.finish q) := by
  obtain ⟨hmem, habsent⟩ := h.mem_held_iff.1 hq
  refine ⟨?_, ?_, ?_, ?_⟩
  · refine (h.grown.put p.working habsent (free q hmem)).of_tables_eq ?_
    simp [Progress.finish, hq, SchemaCache.unlock]
  · have hfree : q ∉ cache.locks := SchemaCache.isLocked_eq_false_iff.1 (free q hmem)
    simp [Progress.finish, hq, SchemaCache.unlock, SchemaCache.put, h.locks,
      List.erase_append_right _ hfree]
  · have hnodup : p.held.Nodup := h.held ▸ distinct.filter _
    have herase : (p.finish q).held = p.held.erase q := rfl
    rw [herase, hnodup.erase_eq_filter, h.held, List.filter_filter]
    refine List.filter_congr fun c _ => ?_
    rw [Bool.eq_iff_iff]
    simp [← Bool.not_eq_true, has_finish, not_or]
  · intro c hc
    rw [has_finish]
    rcases List.mem_append.1 hc with hc | hc
    · exact Or.inr (h.visited c hc)
    · exact Or.inl (List.mem_singleton.1 hc)

end Framed

theorem opening_cache (distinct : chain.Nodup) (free : ∀ c ∈ chain, cache.isLocked c = false) :
    (opening chain cache).cache =
      { cache with locks := cache.locks ++ chain.filter fun c => !cache.has c } :=
  SchemaCache.lockAll_eq (distinct.filter _) fun c hc => free c (List.mem_filter.1 hc).1

theorem framed_opening (distinct : chain.Nodup)
    (free : ∀ c ∈ chain, cache.isLocked c = false) :
    Framed cache chain [] (opening chain cache) := by
  have hcache := opening_cache distinct free
  refine ⟨?_, ?_, ?_, by simp⟩
  · exact (SchemaCache.Extends.refl cache).of_tables_eq (by rw [hcache])
  · rw [hcache]; rfl
  · rw [hcache]; rfl

theorem Declares.framed (frames : ∀ t c, (nested t c).Framed c) {p p' : Progress}
    {owner : ClassPath} {x : Declaration} (hx : Declares r nested chain owner p x p')
    (h : Framed cache chain done p) : Framed cache chain done p' ∧ p'.held = p.held := by
  cases hx with
  | field => exact ⟨⟨h.grown, h.locks, h.held, h.visited⟩, rfl⟩
  | cached => exact ⟨⟨h.grown, h.locks, h.held, h.visited⟩, rfl⟩
  | @nested _ target =>
    have ha := h.adopt (frames target p.cache)
    exact ⟨⟨ha.grown, ha.locks, ha.held, ha.visited⟩, rfl⟩

theorem Fails.framed (frames : ∀ t c, (nested t c).Framed c) {p : Progress} {s : Halt}
    {owner : ClassPath} {x : Declaration} (hx : Fails r nested chain owner p x s)
    (h : Framed cache chain done p) : Framed cache chain done s.progress := by
  cases hx with
  | unnamed | unparsed | unresolved | circular => exact h
  | imported | tooDeep => exact h.adopt (frames _ p.cache)
  | @missing _ target =>
    have ha := h.adopt (frames target p.cache)
    exact ⟨ha.grown, ha.locks, ha.held, ha.visited⟩

/-- The frame holds at every step of a replay; inside a class, that class is still held. -/
theorem walk_framed (frames : ∀ t c, (nested t c).Framed c) (distinct : chain.Nodup)
    (free : ∀ c ∈ chain, cache.isLocked c = false) :
    Walk r nested chain (Framed cache chain)
      (fun done q _ p => Framed cache chain done p ∧ q ∈ p.held)
      (fun s => Undoable cache s.progress) where
  cached done q rest p table _ h found := by
    refine ⟨h.grown, h.locks, h.held, fun c hc => ?_⟩
    rcases List.mem_append.1 hc with hc | hc
    · exact h.visited c hc
    · rw [List.mem_singleton.1 hc]
      exact SchemaCache.has_iff.2 ⟨table, found⟩
  enter done q rest p hchain h found :=
    ⟨h, h.mem_held_iff.2 ⟨by simp [hchain], SchemaCache.has_eq_false_iff.2 found⟩⟩
  declares done q rest d ds x more p p' _ _ _ h hx := by
    obtain ⟨h', hheld⟩ := hx.framed frames h.1
    exact ⟨h', hheld ▸ h.2⟩
  fails done q rest d ds x more p s _ _ _ h hx := (hx.framed frames h.1).undoable free
  finish done q rest d p _ _ h := h.1.finish distinct free h.2

theorem replay_framed (frames : ∀ t c, (nested t c).Framed c) (r : Registry) (cls : ClassPath)
    (cache : SchemaCache) :
    Ends (fun p => p.cache.has cls = true ∧ cache.Extends p.cache p.compiled ∧
      p.cache.locks = cache.locks) (fun s => Undoable cache s.progress)
      (replay r nested cls cache) := by
  have untouched : Undoable cache (untouched cache) :=
    ⟨.refl cache, by simp [Progress.untouched], by simp [Progress.untouched]⟩
  refine replay_ends (fun _ _ => untouched) (fun _ _ _ _ => untouched) ?_
  intro chain ha hfree
  have walk := walk_framed (r := r) frames ha.nodup hfree
  refine (walk.ends ha.contains (framed_opening ha.nodup hfree)).imp ?_ fun _ => id
  intro p hp
  have hnone : p.held = [] := by
    simpa [hp.held] using hp.visited
  have hcls := hp.visited cls ha.mem_self
  exact ⟨hcls, hcls, hp.grown, by simp [hp.locks, hnone]⟩

end Progress

namespace Attempt

/-- Work on a class keeps the locks and every table, whether it succeeds or not. -/
theorem make_framed (r : Registry) (depth : Nat) (cls : ClassPath) (cache : SchemaCache) :
    (make r depth cls cache).Framed cache := by
  induction depth generalizing cls cache with
  | zero => exact ⟨.refl cache, rfl⟩
  | succ depth ih =>
    have hreplay := Progress.replay_framed ih r cls cache
    cases hc : cache.has cls with
    | true => rw [make_cached hc]; exact ⟨.refl cache, rfl⟩
    | false =>
      rw [make_absent hc]
      split
      · next p hp => rw [hp] at hreplay; exact ⟨hreplay.2.1, hreplay.2.2⟩
      · next s hs =>
        rw [hs] at hreplay
        rw [SchemaCache.unlockAll_eq hreplay.locks hreplay.free]
        exact ⟨hreplay.grown.of_tables_eq rfl, rfl⟩

theorem has_of_make {depth : Nat} {pending : OrderedSet ClassPath}
    (h : (make r depth cls cache).result = .ok pending) :
    (make r depth cls cache).cache.has cls = true := by
  cases depth with
  | zero => cases h
  | succ depth =>
    rcases make_ok h with ⟨hc, hcache, -⟩ | ⟨p, hp, hcache, -⟩
    · rw [hcache]
      exact hc
    · have hreplay := Progress.replay_framed (make_framed r depth) r cls cache
      rw [hp] at hreplay
      rw [hcache]
      exact hreplay.1

theorem settle_framed {start : SchemaCache} {compiled : OrderedSet ClassPath}
    (budget : Nat) (queue : List ClassPath) (grown : start.Extends cache compiled)
    (locks : cache.locks = start.locks) :
    (settle r budget queue cache compiled).Framed start := by
  have keeps : ∀ {c : SchemaCache}, c.locks = start.locks →
      ∀ k, start.isLocked k = true → c.isLocked k = true := by
    intro c hc k hk
    rwa [SchemaCache.isLocked_iff, hc, ← SchemaCache.isLocked_iff]
  fun_induction settle r budget queue cache compiled with
  | case1 => exact ⟨grown, locks⟩
  | case2 cache compiled budget cls rest hc ih => exact ih grown locks
  | case3 => exact ⟨grown, locks⟩
  | case4 cache compiled cls rest hc budget nested compiled' stop hs =>
    have hn := make_framed r (r.free cache + 1) cls cache
    exact ⟨grown.trans hn.grown (keeps locks), hn.locks.trans locks⟩
  | case5 cache compiled cls rest hc budget nested compiled' pending hs ih =>
    have hn := make_framed r (r.free cache + 1) cls cache
    exact ih (grown.trans hn.grown (keeps locks)) (hn.locks.trans locks)

theorem settle_mono {compiled : OrderedSet ClassPath} {k : ClassPath} (budget : Nat)
    (queue : List ClassPath) (hk : cache.has k = true) :
    (settle r budget queue cache compiled).cache.has k = true := by
  fun_induction settle r budget queue cache compiled with
  | case1 => exact hk
  | case2 cache compiled budget cls rest hc ih => exact ih hk
  | case3 => exact hk
  | case4 cache compiled cls rest hc budget nested compiled' stop hs =>
    exact (make_framed r (r.free cache + 1) cls cache).grown.mono hk
  | case5 cache compiled cls rest hc budget nested compiled' pending hs ih =>
    exact ih ((make_framed r (r.free cache + 1) cls cache).grown.mono hk)

/-- A compilation's work on the class itself. -/
def first (r : Registry) (cache : SchemaCache) (cls : ClassPath) : Attempt :=
  make r (r.free cache + 1) cls cache

/-- A compilation's work on the class and then on the classes that it leaves. -/
def whole (r : Registry) (cache : SchemaCache) (cls : ClassPath) (pending : List ClassPath) :
    Attempt :=
  settle r (r.uncached (first r cache cls).cache) pending (first r cache cls).cache
    (first r cache cls).compiled

theorem whole_framed (r : Registry) (cache : SchemaCache) (cls : ClassPath)
    (pending : List ClassPath) : (whole r cache cls pending).Framed cache := by
  have h := make_framed r (r.free cache + 1) cls cache
  exact settle_framed _ _ h.grown h.locks

end Attempt

namespace SchemaCache

/-- What a compilation can end with, in terms of the work done on the class and its queue. There is
no work on a class that is cached. -/
inductive Compiles (r : Registry) (cache : SchemaCache) (cls : ClassPath) :
    SchemaCache × Except SchemaError FieldTable → Prop where
  | failed {stop} (made : (Attempt.first r cache cls).result = .error stop) :
      Compiles r cache cls (cache, .error (stop.error cls))
  | queueFailed {pending stop} (made : (Attempt.first r cache cls).result = .ok pending)
      (settled : (Attempt.whole r cache cls pending).result = .error stop) :
      Compiles r cache cls (cache, .error (.propertyClassFailed cls (stop.error cls)))
  | compiled {pending left table} (made : (Attempt.first r cache cls).result = .ok pending)
      (settled : (Attempt.whole r cache cls pending).result = .ok left)
      (found : (Attempt.whole r cache cls pending).cache.get? cls = some table) :
      Compiles r cache cls ((Attempt.whole r cache cls pending).cache, .ok table)

private theorem compiles_of_cached {table : FieldTable} (found : cache.get? cls = some table) :
    Compiles r cache cls (cache, .ok table) := by
  have hfirst : Attempt.first r cache cls = ⟨cache, [], .ok []⟩ := by
    simp [Attempt.first, Attempt.make, has_iff.2 ⟨table, found⟩]
  have hwhole : Attempt.whole r cache cls [] = ⟨cache, [], .ok []⟩ := by
    simp [Attempt.whole, hfirst, Attempt.settle]
  have h : Compiles r cache cls ((Attempt.whole r cache cls []).cache, .ok table) :=
    .compiled (by rw [hfirst]) (by rw [hwhole]) (by rw [hwhole]; exact found)
  rwa [hwhole] at h

theorem compile_eq_match (r : Registry) (cache : SchemaCache) (cls : ClassPath) :
    cache.compile r cls =
      match cache.get? cls with
      | some table => (cache, .ok table)
      | none =>
        let first := Attempt.first r cache cls
        match first.result with
        | .error stop => (first.cache.eraseAll first.compiled, .error (stop.error cls))
        | .ok pending =>
          let all := Attempt.whole r cache cls pending
          match all.result with
          | .error stop =>
            (all.cache.eraseAll all.compiled, .error (.propertyClassFailed cls (stop.error cls)))
          | .ok _ =>
            match all.cache.get? cls with
            | some table => (all.cache, .ok table)
            | none => (all.cache, .error (.badSchema cls .missingAfterCompilation)) := rfl

theorem compile_cases (r : Registry) (cache : SchemaCache) (cls : ClassPath) :
    Compiles r cache cls (cache.compile r cls) := by
  have hfirst : (Attempt.first r cache cls).Framed cache := Attempt.make_framed r _ cls cache
  rw [compile_eq_match]
  split
  · next table found => exact compiles_of_cached found
  · dsimp only
    split
    · next stop made =>
      rw [hfirst.grown.eraseAll hfirst.locks]
      exact .failed made
    · next pending made =>
      have hwhole := Attempt.whole_framed r cache cls pending
      split
      · next stop settled =>
        rw [hwhole.grown.eraseAll hwhole.locks]
        exact .queueFailed made settled
      · next left settled =>
        split
        · next table found => exact .compiled made settled found
        · next missing =>
          have hcls : (Attempt.whole r cache cls pending).cache.has cls = true :=
            Attempt.settle_mono _ _ (Attempt.has_of_make made)
          rw [has_eq_false_iff.2 missing] at hcls
          cases hcls

section

variable {pending left : OrderedSet ClassPath} {stop : Stop}

theorem compile_failed (made : (Attempt.first r cache cls).result = .error stop) :
    (cache.compile r cls).2 = .error (stop.error cls) := by
  have h := compile_cases r cache cls
  generalize cache.compile r cls = result at h ⊢
  cases h with
  | failed made' => cases made.symm.trans made'; rfl
  | queueFailed made' | compiled made' => cases made.symm.trans made'

theorem compile_queueFailed (made : (Attempt.first r cache cls).result = .ok pending)
    (settled : (Attempt.whole r cache cls pending).result = .error stop) :
    (cache.compile r cls).2 = .error (.propertyClassFailed cls (stop.error cls)) := by
  have h := compile_cases r cache cls
  generalize cache.compile r cls = result at h ⊢
  cases h with
  | failed made' => cases made.symm.trans made'
  | queueFailed made' settled' =>
    cases made.symm.trans made'
    cases settled.symm.trans settled'
    rfl
  | compiled made' settled' =>
    cases made.symm.trans made'
    cases settled.symm.trans settled'

theorem compile_compiled (made : (Attempt.first r cache cls).result = .ok pending)
    (settled : (Attempt.whole r cache cls pending).result = .ok left) :
    ∃ table, (cache.compile r cls).2 = .ok table := by
  have h := compile_cases r cache cls
  generalize cache.compile r cls = result at h ⊢
  cases h with
  | failed made' => cases made.symm.trans made'
  | queueFailed made' settled' =>
    cases made.symm.trans made'
    cases settled.symm.trans settled'
  | @compiled _ _ table => exact ⟨table, rfl⟩

/-- If all classes that the work on a class leaves are cached already, its table is the result. -/
theorem compile_alone {table : FieldTable} (absent : cache.get? cls = none)
    (made : (Attempt.first r cache cls).result = .ok pending)
    (cached : ∀ c ∈ pending, (Attempt.first r cache cls).cache.has c = true)
    (found : (Attempt.first r cache cls).cache.get? cls = some table) :
    (cache.compile r cls).2 = .ok table := by
  have settled : Attempt.whole r cache cls pending =
      ⟨(Attempt.first r cache cls).cache, (Attempt.first r cache cls).compiled, .ok []⟩ :=
    Attempt.settle_all_cached cached
  rw [compile_eq_match, absent]
  dsimp only
  rw [made]
  dsimp only
  rw [settled]
  dsimp only
  rw [found]

end

theorem get?_of_compile {table : FieldTable} (h : (cache.compile r cls).2 = .ok table) :
    (cache.compile r cls).1.get? cls = some table := by
  have hcases := compile_cases r cache cls
  generalize cache.compile r cls = result at hcases h ⊢
  cases hcases with
  | failed | queueFailed => cases h
  | compiled _ _ found => cases h; exact found

/-- A compilation that fails leaves the cache as it was. One that succeeds gives the table that it
leaves for the class, only appends tables of classes that were not cached and keeps the locks. -/
theorem compile_transaction (r : Registry) (cache : SchemaCache) (cls : ClassPath) :
    match (cache.compile r cls).2 with
    | .error _ => (cache.compile r cls).1 = cache
    | .ok table =>
      (cache.compile r cls).1.get? cls = some table ∧
      (cache.compile r cls).1.locks = cache.locks ∧
      ∃ added : Dict ClassPath FieldTable,
        (cache.compile r cls).1.tables = cache.tables ++ added ∧
        (Dict.keys added).Nodup ∧ ∀ k ∈ Dict.keys added, cache.has k = false := by
  have h := compile_cases r cache cls
  generalize cache.compile r cls = result at h ⊢
  cases h with
  | failed => rfl
  | queueFailed => rfl
  | @compiled pending _ _ _ _ found =>
    have hwhole := Attempt.whole_framed r cache cls pending
    obtain ⟨added, hadded, hkeys⟩ := hwhole.grown.tables
    exact ⟨found, hwhole.locks, added, hadded, hkeys ▸ hwhole.grown.distinct,
      hkeys ▸ hwhole.grown.absent⟩

end SchemaCache

end LazyBinding
