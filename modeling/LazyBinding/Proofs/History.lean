import LazyBinding.Proofs.LockStep

/-!
# Compiling does not depend on history

A compilation that finds tables from earlier ones gives the same result as one that begins with an
empty cache: the same table, or the same error.
-/
namespace LazyBinding

variable {r : Registry} {known cold warm cache : SchemaCache} {cls : ClassPath}

theorem SchemaCache.parallel_of_unlocked (ahead : SchemaCache.Ahead known cold warm)
    (unlocked : cold.locks = []) (unlocked' : warm.locks = []) :
    SchemaCache.Parallel known cold warm where
  ahead := ahead
  locks k := by simp [isLocked, unlocked, unlocked']
  free k _ := by simp [isLocked, unlocked]

namespace Attempt

variable {budget : Nat} {rest pending : List ClassPath} {compiled : OrderedSet ClassPath}

theorem settle_agrees_of_failed {rel : OrderedSet ClassPath → OrderedSet ClassPath → Prop}
    {stop : Stop} (absent : warm.has cls = false)
    (made : Agree id rel (.error stop) (make r (r.free warm + 1) cls warm).result) :
    Agree id (fun _ _ => True) (.error stop : Except Stop (OrderedSet ClassPath))
      (settle r budget (cls :: rest) warm compiled).result := by
  cases budget with
  | zero =>
    rw [settle_spent absent]
    exact .rightDeep rfl
  | succ budget =>
    cases hs : (make r (r.free warm + 1) cls warm).result with
    | error stop' =>
      rw [settle_failed absent hs]
      rw [hs] at made
      cases made with
      | fault left right => exact .fault left right
      | leftDeep h => exact .leftDeep h
      | rightDeep h => exact .rightDeep h
    | ok pending' =>
      rw [hs] at made
      cases made with
      | leftDeep h => exact .leftDeep h

theorem settle_agrees_of_made {rel : OrderedSet ClassPath → OrderedSet ClassPath → Prop}
    {result : Except Stop (OrderedSet ClassPath)} (absent : warm.has cls = false)
    (made : Agree id rel (.ok pending) (make r (r.free warm + 1) cls warm).result)
    (next : ∀ budget compiled pending', rel pending pending' →
      Agree id (fun _ _ => True) result
        (settle r budget (rest ++ pending') (make r (r.free warm + 1) cls warm).cache
          compiled).result) :
    Agree id (fun _ _ => True) result (settle r budget (cls :: rest) warm compiled).result := by
  cases budget with
  | zero =>
    rw [settle_spent absent]
    exact .rightDeep rfl
  | succ budget =>
    cases hs : (make r (r.free warm + 1) cls warm).result with
    | error stop' =>
      rw [settle_failed absent hs]
      rw [hs] at made
      cases made with
      | rightDeep h => exact .rightDeep h
    | ok pending' =>
      rw [settle_made absent hs]
      rw [hs] at made
      cases made with
      | ok h => exact next _ _ pending' h

/-- Queues that differ by known classes are worked off alike. -/
theorem settle_agrees (h : known.Settled r) (budget : Nat) (queue : List ClassPath)
    (cold : SchemaCache) (compiled : OrderedSet ClassPath) :
    ∀ (budget' : Nat) (warm : SchemaCache) (compiled' : OrderedSet ClassPath),
      SchemaCache.Ahead known cold warm → cold.locks = [] → warm.locks = [] →
      Agree id (fun _ _ => True) (settle r budget queue cold compiled).result
        (settle r budget' (known.unknown queue) warm compiled').result := by
  have skip : ∀ {k rest}, known.has k = true → known.unknown (k :: rest) = known.unknown rest :=
    fun hk => by simp [SchemaCache.unknown, hk]
  have keep : ∀ {k rest}, known.has k = false →
      known.unknown (k :: rest) = k :: known.unknown rest :=
    fun hk => by simp [SchemaCache.unknown, hk]
  fun_induction settle r budget queue cold compiled with
  | case1 =>
    intro budget' warm compiled' _ _ _
    rw [show known.unknown [] = [] from rfl, settle_nil]
    exact .ok trivial
  | case2 cold compiled budget cls rest hc ih =>
    intro budget' warm compiled' ahead unlocked unlocked'
    cases hk : known.has cls with
    | true => rw [skip hk]; exact ih _ _ _ ahead unlocked unlocked'
    | false =>
      rw [keep hk, settle_cached ((ahead cls).2 (Or.inl hc))]
      exact ih _ _ _ ahead unlocked unlocked'
  | case3 => intros; exact .leftDeep rfl
  | case4 cold compiled cls rest hc budget nested compiled₁ stop hs =>
    intro budget' warm compiled' ahead unlocked unlocked'
    have start := SchemaCache.parallel_of_unlocked ahead unlocked unlocked'
    cases hk : known.has cls with
    | true =>
      obtain rfl := tooDeep_of_known h hk start.free hs
      exact .leftDeep rfl
    | false =>
      have made := make_agrees h (r.free cold + 1) (r.free warm + 1) cls start
      rw [Agrees, hs] at made
      rw [keep hk]
      exact settle_agrees_of_failed (by simpa [ahead.has_eq hk] using hc) made
  | case5 cold compiled cls rest hc budget nested compiled₁ pending hs ih =>
    intro budget' warm compiled' ahead unlocked unlocked'
    have start := SchemaCache.parallel_of_unlocked ahead unlocked unlocked'
    have hframed := make_framed r (r.free cold + 1) cls cold
    have hframed' := make_framed r (r.free warm + 1) cls warm
    have hqueue : known.unknown (rest ++ pending) = known.unknown rest ++ known.unknown pending :=
      List.filter_append _ _
    rw [hqueue] at ih
    cases hk : known.has cls with
    | true =>
      obtain ⟨hnone, hnew⟩ := made_known h hk hs
      rw [skip hk]
      rw [hnone, List.append_nil] at ih
      exact ih _ _ _ (ahead.catch_up (fun k => hframed.grown.mono) hnew)
        (hframed.locks.trans unlocked) unlocked'
    | false =>
      have made := make_agrees h (r.free cold + 1) (r.free warm + 1) cls start
      rw [Agrees, hs] at made
      rw [keep hk]
      refine settle_agrees_of_made (by simpa [ahead.has_eq hk] using hc) made ?_
      rintro budget' compiled' pending' ⟨hahead, hpending⟩
      rw [hpending]
      exact ih _ _ _ hahead (hframed.locks.trans unlocked) (hframed'.locks.trans unlocked')

end Attempt

namespace SchemaCache

/-- A compilation that finds earlier tables ends like one that begins with none. -/
theorem Settled.compile_eq (h : known.Settled r) (cls : ClassPath) :
    (known.compile r cls).2 = (SchemaCache.empty.compile r cls).2 := by
  have deep : ∀ {c : SchemaCache} stop, (Attempt.first r c cls).result = .error stop →
      id stop ≠ .tooDeep := fun stop hs hdeep =>
    Attempt.make_ne_tooDeep r cls _ (hs.trans (congrArg Except.error hdeep))
  have deepQueue : ∀ {c : SchemaCache} {pending} stop,
      (Attempt.first r c cls).result = .ok pending →
      (Attempt.whole r c cls pending).result = .error stop → id stop ≠ .tooDeep :=
    fun stop made hs hdeep =>
      Attempt.whole_ne_tooDeep made (hs.trans (congrArg Except.error hdeep))
  have hahead : Ahead known .empty known := fun k => by simp [has, Dict.has, empty]
  have hfirst : (Attempt.first r .empty cls).Agrees known (Attempt.first r known cls) :=
    Attempt.make_agrees h _ _ cls (parallel_of_unlocked hahead rfl h.unlocked)
  rcases hfirst.decided deep deep with
    ⟨pending, pending', hc, hw, hahead, rfl⟩ | ⟨s, t, hc, hw, rfl⟩
  · have hframed := Attempt.make_framed r (r.free .empty + 1) cls .empty
    have hframed' := Attempt.make_framed r (r.free known + 1) cls known
    have hwhole : Agree id (fun _ _ => True) (Attempt.whole r .empty cls pending).result
        (Attempt.whole r known cls (known.unknown pending)).result :=
      Attempt.settle_agrees h _ _ _ _ _ _ _ hahead hframed.locks (hframed'.locks.trans h.unlocked)
    rcases hwhole.decided (fun s => deepQueue s hc) (fun s => deepQueue s hw) with
      ⟨_, _, hc', hw', -⟩ | ⟨s, t, hc', hw', rfl⟩
    · obtain ⟨table, ht⟩ := compile_compiled hc hc'
      obtain ⟨table', ht'⟩ := compile_compiled hw hw'
      rw [ht, ht', (h.flattens ht').unique ((settled_empty r).flattens ht)]
    · rw [compile_queueFailed hc hc', compile_queueFailed hw hw']
      rfl
  · rw [compile_failed hc, compile_failed hw]
    rfl

end SchemaCache

end LazyBinding
