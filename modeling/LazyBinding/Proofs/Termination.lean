import LazyBinding.Proofs.NestingDepth

/-!
# Compilation ends

A compilation as a relation that bounds neither the levels of nested work nor the length of the
queue. The relation counts the levels that lie inside each other, and it lists the classes that the
queue had to work on; a compilation that never ends is not related to anything. Every compilation is
related to exactly one result, which is the one that `compile` gives.
-/
namespace LazyBinding

/-- A fold whose steps are given by a relation. -/
inductive Folds {ε α σ : Type} (step : σ → α → Except ε σ → Prop) :
    List α → σ → Except ε σ → Prop where
  | nil {s} : Folds step [] s (.ok s)
  | stops {x rest s e} (h : step s x (.error e)) : Folds step (x :: rest) s (.error e)
  | goesOn {x rest s t out} (h : step s x (.ok t)) (later : Folds step rest t out) :
      Folds step (x :: rest) s out

namespace Folds

variable {ε α σ : Type} {step step' : σ → α → Except ε σ → Prop} {l : List α} {s : σ}
variable {out out' : Except ε σ}

theorem mono (steps : ∀ s x out, step s x out → step' s x out) (h : Folds step l s out) :
    Folds step' l s out := by
  induction h with
  | nil => exact .nil
  | stops h => exact .stops (steps _ _ _ h)
  | goesOn h _ ih => exact .goesOn (steps _ _ _ h) ih

theorem unique (h : Folds step l s out) (h' : Folds step l s out')
    (steps : ∀ s x out out', step s x out → step s x out' → out = out') : out = out' := by
  induction h with
  | nil => cases h'; rfl
  | stops h =>
    cases h' with
    | stops h' => exact steps _ _ _ _ h h'
    | goesOn h' => cases steps _ _ _ _ h h'
  | goesOn h _ ih =>
    cases h' with
    | stops h' => cases steps _ _ _ _ h h'
    | goesOn h' later' =>
      cases steps _ _ _ _ h h'
      exact ih later'

/-- A fold of a function whose steps are related, except for those that fail in another way than
`err` says. -/
theorem of_foldlM {f : σ → α → Except ε σ} {err : ε → Prop}
    (steps : ∀ s x, Ends (fun _ => True) err (f s x) → step s x (f s x))
    (h : Ends (fun _ => True) err (l.foldlM f s)) : Folds step l s (l.foldlM f s) := by
  induction l generalizing s with
  | nil => exact .nil
  | cons x rest ih =>
    have hx := steps s x
    rw [List.foldlM_cons] at h ⊢
    cases hf : f s x with
    | error e =>
      rw [hf] at h hx
      exact .stops (hx h)
    | ok t =>
      rw [hf] at h hx
      exact .goesOn (hx trivial) (ih h)

end Folds

namespace Progress

/-- A declaration of the class `owner` is carried out: alone, if it makes no difference what nested
work gives, or else with work that `runs` relates to the imported class and the cache. -/
inductive Enacts (r : Registry) (runs : ClassPath → SchemaCache → Attempt → Prop)
    (chain : List ClassPath) (owner : ClassPath) (p : Progress) :
    Declaration → Except Halt Progress → Prop where
  | alone {x out} (h : ∀ nested, p.declare r nested chain owner x = out) :
      Enacts r runs chain owner p x out
  | nested {reference target a} (resolved : r.resolve reference owner = some target)
      (isOpen : p.Open chain owner target) (absent : p.cache.has target = false)
      (ran : runs target p.cache a) :
      Enacts r runs chain owner p (.imports reference)
        (p.declare r (fun _ _ => a) chain owner (.imports reference))

/-- The work goes on to a class of the ancestry. -/
inductive Visits (r : Registry) (runs : ClassPath → SchemaCache → Attempt → Prop)
    (chain : List ClassPath) (p : Progress) (cls : ClassPath) : Except Halt Progress → Prop where
  | cached {table} (found : p.cache.get? cls = some table) :
      Visits r runs chain p cls (.ok { p with working := table })
  | unregistered (absent : p.cache.get? cls = none) (unknown : r.get? cls = none) :
      Visits r runs chain p cls (p.halt (.badSchema cls .notRegistered))
  | declared {d out} (absent : p.cache.get? cls = none) (hd : r.get? cls = some d)
      (h : Folds (Enacts r runs chain cls) d.declarations p out) :
      Visits r runs chain p cls (out.map fun p => p.finish cls)

/-- The replay is at its end and finds its class cached. -/
def arrive (cls : ClassPath) (p : Progress) : Except Halt Progress :=
  if p.cache.has cls then .ok p else p.halt (.badSchema cls .missingAfterCompilation)

/-- The ancestry of a class is replayed. -/
inductive Retraces (r : Registry) (runs : ClassPath → SchemaCache → Attempt → Prop)
    (cls : ClassPath) (cache : SchemaCache) : Except Halt Progress → Prop where
  | refused {e} (h : r.ancestorChain cls = .error e) :
      Retraces r runs cls cache (.error ⟨.fault e, untouched cache⟩)
  | locked {chain ancestor} (h : r.ancestorChain cls = .ok chain)
      (hl : chain.find? cache.isLocked = some ancestor) :
      Retraces r runs cls cache
        (.error ⟨.fault (.circularReference ancestor cls), untouched cache⟩)
  | walked {chain out} (h : r.ancestorChain cls = .ok chain)
      (hl : chain.find? cache.isLocked = none)
      (walk : Folds (Visits r runs chain) chain (opening chain cache) out) :
      Retraces r runs cls cache (out.bind (arrive cls))

/-! ### More runs of nested work -/

variable {r : Registry} {cache : SchemaCache} {cls owner : ClassPath} {chain : List ClassPath}
variable {runs runs' : ClassPath → SchemaCache → Attempt → Prop}
variable {nested : ClassPath → SchemaCache → Attempt}
variable {p : Progress} {x : Declaration} {out out' : Except Halt Progress}

theorem Enacts.mono (hruns : ∀ t c a, runs t c a → runs' t c a)
    (h : Enacts r runs chain owner p x out) : Enacts r runs' chain owner p x out := by
  cases h with
  | alone h => exact .alone h
  | nested resolved isOpen absent ran => exact .nested resolved isOpen absent (hruns _ _ _ ran)

theorem Visits.mono (hruns : ∀ t c a, runs t c a → runs' t c a)
    (h : Visits r runs chain p cls out) : Visits r runs' chain p cls out := by
  cases h with
  | cached found => exact .cached found
  | unregistered absent unknown => exact .unregistered absent unknown
  | declared absent hd h => exact .declared absent hd (h.mono fun _ _ _ => Enacts.mono hruns)

theorem Retraces.mono (hruns : ∀ t c a, runs t c a → runs' t c a)
    (h : Retraces r runs cls cache out) : Retraces r runs' cls cache out := by
  cases h with
  | refused h => exact .refused h
  | locked h hl => exact .locked h hl
  | walked h hl walk => exact .walked h hl (walk.mono fun _ _ _ => Visits.mono hruns)

/-! ### One result -/

theorem Enacts.unique (h : Enacts r runs chain owner p x out)
    (h' : Enacts r runs chain owner p x out')
    (single : ∀ t c a a', runs t c a → runs t c a' → a = a') : out = out' := by
  cases h with
  | alone h =>
    cases h' with
    | alone h' => exact (h fun _ c => ⟨c, [], .ok []⟩).symm.trans (h' _)
    | nested => exact (h _).symm
  | nested resolved isOpen absent ran =>
    cases h' with
    | alone h' => exact h' _
    | nested resolved' isOpen' absent' ran' =>
      cases resolved.symm.trans resolved'
      cases single _ _ _ _ ran ran'
      rfl

theorem Visits.unique (h : Visits r runs chain p cls out) (h' : Visits r runs chain p cls out')
    (single : ∀ t c a a', runs t c a → runs t c a' → a = a') : out = out' := by
  cases h with
  | cached found =>
    cases h' with
    | cached found' => cases found.symm.trans found'; rfl
    | unregistered absent' | declared absent' => cases found.symm.trans absent'
  | unregistered absent unknown =>
    cases h' with
    | cached found' => cases absent.symm.trans found'
    | unregistered => rfl
    | declared _ hd' => cases unknown.symm.trans hd'
  | declared absent hd h =>
    cases h' with
    | cached found' => cases absent.symm.trans found'
    | unregistered _ unknown' => cases hd.symm.trans unknown'
    | declared _ hd' h' =>
      cases hd.symm.trans hd'
      rw [h.unique h' fun _ _ _ _ hx hx' => hx.unique hx' single]

theorem Retraces.unique (h : Retraces r runs cls cache out)
    (h' : Retraces r runs cls cache out')
    (single : ∀ t c a a', runs t c a → runs t c a' → a = a') : out = out' := by
  cases h with
  | refused h =>
    cases h' with
    | refused h' => cases h.symm.trans h'; rfl
    | locked h' | walked h' => cases h.symm.trans h'
  | locked h hl =>
    cases h' with
    | refused h' => cases h.symm.trans h'
    | locked h' hl' =>
      cases h.symm.trans h'
      cases hl.symm.trans hl'
      rfl
    | walked h' hl' =>
      cases h.symm.trans h'
      cases hl.symm.trans hl'
  | walked h hl walk =>
    cases h' with
    | refused h' => cases h.symm.trans h'
    | locked h' hl' =>
      cases h.symm.trans h'
      cases hl.symm.trans hl'
    | walked h' hl' walk' =>
      cases h.symm.trans h'
      rw [walk.unique walk' fun _ _ _ _ hq hq' => hq.unique hq' single]

/-! ### The results of work that is not cut off -/

/-- The work has not run out of levels. -/
def Concludes (out : Except Halt Progress) : Prop :=
  Ends (fun _ => True) (fun s => s.stop ≠ .tooDeep) out

section

variable (answers : ∀ t c, (nested t c).result ≠ .error .tooDeep → runs t c (nested t c))

include answers

theorem Enacts.of_declare (h : Concludes (p.declare r nested chain owner x)) :
    Enacts r runs chain owner p x (p.declare r nested chain owner x) := by
  cases x with
  | field name definition => exact .alone fun _ => rfl
  | imports reference =>
    cases resolved : r.resolve reference owner with
    | none =>
      refine .alone fun _ => ?_
      rw [declare_unresolved resolved, declare_unresolved resolved]
    | some target =>
      by_cases closed : target = owner ∨ target ∈ chain ∨ p.cache.isLocked target = true
      · refine .alone fun _ => ?_
        rw [declare_circular resolved closed, declare_circular resolved closed]
      · have isOpen := open_of_not_closed closed
        cases found : p.cache.get? target with
        | some table =>
          refine .alone fun _ => ?_
          rw [declare_cached resolved isOpen found, declare_cached resolved isOpen found]
        | none =>
          have absent := SchemaCache.has_eq_false_iff.2 found
          have ran : (nested target p.cache).result ≠ .error .tooDeep := fun deep => by
            rw [declare_nested resolved isOpen absent, deep] at h
            exact h rfl
          have same : p.declare r nested chain owner (.imports reference) =
              p.declare r (fun _ _ => nested target p.cache) chain owner (.imports reference) := by
            rw [declare_nested resolved isOpen absent, declare_nested resolved isOpen absent]
          rw [same]
          exact .nested resolved isOpen absent (answers target p.cache ran)

theorem Visits.of_descend (h : Concludes (descend r nested chain p cls)) :
    Visits r runs chain p cls (descend r nested chain p cls) := by
  cases found : p.cache.get? cls with
  | some table =>
    rw [descend_cached found]
    exact .cached found
  | none =>
    cases hd : r.get? cls with
    | none =>
      have : descend r nested chain p cls = p.halt (.badSchema cls .notRegistered) := by
        simp only [descend, found, hd]
      rw [this]
      exact .unregistered found hd
    | some d =>
      rw [descend_declared found hd] at h ⊢
      refine .declared found hd (Folds.of_foldlM (fun _ _ => Enacts.of_declare answers) ?_)
      cases hf : d.declarations.foldlM (declare r nested chain cls) p with
      | ok p => trivial
      | error s => rw [hf] at h; exact h

theorem Retraces.of_replay (h : Concludes (replay r nested cls cache)) :
    Retraces r runs cls cache (replay r nested cls cache) := by
  cases hchain : r.ancestorChain cls with
  | error e =>
    rw [replay_refused hchain]
    exact .refused hchain
  | ok chain =>
    rw [replay_of_ancestry cache (Registry.ancestorChain_eq_ok_iff.1 hchain)] at h ⊢
    cases hl : chain.find? cache.isLocked with
    | some ancestor => exact .locked hchain hl
    | none =>
      rw [hl] at h
      have walk : Concludes (chain.foldlM (descend r nested chain) (opening chain cache)) →
          Folds (Visits r runs chain) chain (opening chain cache)
            (chain.foldlM (descend r nested chain) (opening chain cache)) :=
        Folds.of_foldlM fun _ _ => Visits.of_descend answers
      cases hf : chain.foldlM (descend r nested chain) (opening chain cache) with
      | error s =>
        rw [hf] at h walk
        exact .walked hchain hl (walk h)
      | ok p =>
        rw [hf] at walk
        exact .walked hchain hl (walk trivial)

end

end Progress

namespace Attempt

/-- What a replay amounts to. The locks that it still holds are released. -/
def ofReplay : Except Halt Progress → Attempt
  | .ok p => ⟨p.cache, p.compiled, .ok p.pending⟩
  | .error h => ⟨h.progress.cache.unlockAll h.progress.held, h.progress.compiled, .error h.stop⟩

/-- The work on a class ends, and no more than `depth` levels of work, its own included, lie inside
each other. -/
def Runs (r : Registry) : (depth : Nat) → ClassPath → SchemaCache → Attempt → Prop
  | 0, _, _, _ => False
  | depth + 1, cls, cache, a =>
    cache.has cls = true ∧ a = ⟨cache, [], .ok []⟩ ∨
      cache.has cls = false ∧
        ∃ out, Progress.Retraces r (Runs r depth) cls cache out ∧ a = ofReplay out

variable {r : Registry} {cache : SchemaCache} {cls : ClassPath} {depth depth' : Nat}
variable {a b : Attempt}

theorem Runs.succ (h : Runs r depth cls cache a) : Runs r (depth + 1) cls cache a := by
  induction depth generalizing cls cache a with
  | zero => cases h
  | succ depth ih =>
    rcases h with cached | ⟨absent, out, h, rfl⟩
    · exact Or.inl cached
    · exact Or.inr ⟨absent, out, h.mono fun _ _ _ => ih, rfl⟩

theorem Runs.mono (hle : depth ≤ depth') (h : Runs r depth cls cache a) :
    Runs r depth' cls cache a := by
  induction hle with
  | refl => exact h
  | step _ ih => exact ih.succ

theorem Runs.unique (h : Runs r depth cls cache a) (h' : Runs r depth cls cache b) : a = b := by
  induction depth generalizing cls cache a b with
  | zero => cases h
  | succ depth ih =>
    rcases h with ⟨cached, rfl⟩ | ⟨absent, out, h, rfl⟩
    · rcases h' with ⟨-, rfl⟩ | ⟨absent', -⟩
      · rfl
      · simp [cached] at absent'
    · rcases h' with ⟨cached', -⟩ | ⟨-, out', h', rfl⟩
      · simp [absent] at cached'
      · rw [h.unique h' fun _ _ _ _ => ih]

theorem runs_of_make (h : (make r depth cls cache).result ≠ .error .tooDeep) :
    Runs r depth cls cache (make r depth cls cache) := by
  induction depth generalizing cls cache with
  | zero => exact absurd rfl h
  | succ depth ih =>
    cases hc : cache.has cls with
    | true =>
      rw [make_cached hc]
      exact Or.inl ⟨hc, rfl⟩
    | false =>
      have hmake : make r (depth + 1) cls cache =
          ofReplay (Progress.replay r (make r depth) cls cache) := make_absent hc
      rw [hmake] at h ⊢
      refine Or.inr ⟨hc, _, Progress.Retraces.of_replay (fun t c => ih) ?_, rfl⟩
      cases hreplay : Progress.replay r (make r depth) cls cache with
      | ok p => trivial
      | error s =>
        rw [hreplay] at h
        exact fun deep => h (congrArg Except.error deep)

theorem runs_of_free_lt (levels : r.free cache < depth) :
    Runs r depth cls cache (make r (r.free cache + 1) cls cache) :=
  (runs_of_make (make_ne_tooDeep r cls cache)).mono levels

/-- Work that ends, on however many levels, is the work that a compilation does. -/
theorem Runs.eq_make (h : Runs r depth cls cache a) : a = make r (r.free cache + 1) cls cache := by
  rcases Nat.le_total depth (r.free cache + 1) with hle | hlt
  · exact (h.mono hle).unique (runs_of_free_lt (Nat.lt_succ_self _))
  · exact h.unique (runs_of_free_lt hlt)

theorem Runs.framed (h : Runs r depth cls cache a) : a.Framed cache :=
  h.eq_make ▸ make_framed r _ cls cache

theorem Runs.has {pending : OrderedSet ClassPath} (h : Runs r depth cls cache a)
    (made : a.result = .ok pending) : a.cache.has cls = true := by
  cases h.eq_make
  exact has_of_make made

theorem Runs.pending_contains {pending : OrderedSet ClassPath} {u : ClassPath}
    (h : Runs r depth cls cache a) (made : a.result = .ok pending) (hu : u ∈ pending) :
    r.contains u = true := by
  cases h.eq_make
  exact Attempt.pending_contains made hu

/-! ### The queue -/

/-- The classes of a queue and those that they leave behind are worked on in order. Those that are
not cached when their turn comes are `handled`. -/
inductive Drains (r : Registry) (depth : Nat) :
    List ClassPath → SchemaCache → OrderedSet ClassPath → List ClassPath → Attempt → Prop where
  | done {cache compiled} : Drains r depth [] cache compiled [] ⟨cache, compiled, .ok []⟩
  | cached {cls rest cache compiled handled a} (cached : cache.has cls = true)
      (later : Drains r depth rest cache compiled handled a) :
      Drains r depth (cls :: rest) cache compiled handled a
  | failed {cls rest cache compiled a e} (absent : cache.has cls = false)
      (ran : Runs r depth cls cache a) (failed : a.result = .error (.fault e)) :
      Drains r depth (cls :: rest) cache compiled [cls]
        ⟨a.cache, OrderedSet.addAll compiled a.compiled, .error (.fault e)⟩
  | made {cls rest cache compiled pending handled a b} (absent : cache.has cls = false)
      (ran : Runs r depth cls cache a) (made : a.result = .ok pending)
      (later : Drains r depth (rest ++ pending) a.cache (OrderedSet.addAll compiled a.compiled)
        handled b) :
      Drains r depth (cls :: rest) cache compiled (cls :: handled) b

namespace Drains

variable {queue handled handled' : List ClassPath} {compiled : OrderedSet ClassPath}

theorem unique (h : Drains r depth queue cache compiled handled a)
    (h' : Drains r depth' queue cache compiled handled' b) : handled' = handled ∧ b = a := by
  induction h generalizing handled' b with
  | done => cases h'; exact ⟨rfl, rfl⟩
  | cached cached _ ih =>
    cases h' with
    | cached _ later' => exact ih later'
    | failed absent' | made absent' => simp [cached] at absent'
  | failed absent ran failed =>
    cases ran.eq_make
    cases h' with
    | cached cached' => simp [absent] at cached'
    | failed _ ran' failed' =>
      cases ran'.eq_make
      cases failed.symm.trans failed'
      exact ⟨rfl, rfl⟩
    | made _ ran' made' =>
      cases ran'.eq_make
      cases failed.symm.trans made'
  | made absent ran made _ ih =>
    cases ran.eq_make
    cases h' with
    | cached cached' => simp [absent] at cached'
    | failed _ ran' failed' =>
      cases ran'.eq_make
      cases made.symm.trans failed'
    | made _ ran' made' later' =>
      cases ran'.eq_make
      cases made.symm.trans made'
      obtain ⟨rfl, rfl⟩ := ih later'
      exact ⟨rfl, rfl⟩

/-- No class is handled a second time, since work that goes on has cached its class. -/
theorem nodup (h : Drains r depth queue cache compiled handled a) :
    handled.Nodup ∧ ∀ c ∈ handled, cache.has c = false := by
  induction h with
  | done => simp
  | cached _ _ ih => exact ih
  | failed absent => simpa using absent
  | made absent ran made _ ih =>
    obtain ⟨distinct, fresh⟩ := ih
    refine ⟨List.nodup_cons.2 ⟨fun again => ?_, distinct⟩, List.forall_mem_cons.2 ⟨absent, ?_⟩⟩
    · simpa [ran.has made] using fresh _ again
    · intro c hc
      exact Bool.eq_false_iff.2 fun old => by simpa [fresh c hc] using ran.framed.grown.mono old

theorem contains (h : Drains r depth queue cache compiled handled a)
    (registered : ∀ c ∈ queue, r.contains c = true) : ∀ c ∈ handled, r.contains c = true := by
  induction h with
  | done => simp
  | cached _ _ ih => exact ih (List.forall_mem_cons.1 registered).2
  | failed => simpa using (List.forall_mem_cons.1 registered).1
  | made _ ran made _ ih =>
    obtain ⟨first, others⟩ := List.forall_mem_cons.1 registered
    refine List.forall_mem_cons.2 ⟨first, ih fun c hc => ?_⟩
    rcases List.mem_append.1 hc with hc | hc
    · exact others c hc
    · exact ran.pending_contains made hc

end Drains

theorem Framed.free_le (h : a.Framed cache) : r.free a.cache ≤ r.free cache := by
  refine (List.monotone_filter_right r.ids fun k hk => ?_).length_le
  simp only [SchemaCache.isLocked, h.locks, Bool.and_eq_true, Bool.not_eq_true'] at hk ⊢
  exact ⟨Bool.eq_false_iff.2 fun old => by simpa [hk.1] using h.grown.mono old, hk.2⟩

theorem drains_of_settle {compiled : OrderedSet ClassPath} (budget : Nat) (queue : List ClassPath)
    (levels : r.free cache < depth)
    (h : (settle r budget queue cache compiled).result ≠ .error .tooDeep) :
    ∃ handled, Drains r depth queue cache compiled handled
      (settle r budget queue cache compiled) := by
  fun_induction settle r budget queue cache compiled with
  | case1 => exact ⟨[], .done⟩
  | case2 cache compiled budget cls rest hc ih =>
    obtain ⟨handled, later⟩ := ih levels h
    exact ⟨handled, .cached hc later⟩
  | case3 => exact absurd rfl h
  | case4 cache compiled cls rest hc budget nested compiled' stop hs =>
    cases stop with
    | tooDeep => exact absurd rfl h
    | fault e => exact ⟨[cls], .failed (by simpa using hc) (runs_of_free_lt levels) hs⟩
  | case5 cache compiled cls rest hc budget nested compiled' pending hs ih =>
    have fewer : r.free nested.cache ≤ r.free cache :=
      (make_framed r (r.free cache + 1) cls cache).free_le
    obtain ⟨handled, later⟩ := ih (fewer.trans_lt levels) h
    exact ⟨cls :: handled, .made (by simpa using hc) (runs_of_free_lt levels) hs later⟩

/-- What a compilation gives once it is done with the queue. -/
def outcome (cls : ClassPath) (a : Attempt) : SchemaCache × Except SchemaError FieldTable :=
  match a.result with
  | .error stop => (a.cache.eraseAll a.compiled, .error (.propertyClassFailed cls (stop.error cls)))
  | .ok _ =>
    match a.cache.get? cls with
    | some table => (a.cache, .ok table)
    | none => (a.cache, .error (.badSchema cls .missingAfterCompilation))

theorem free_lt_of_make {pending : OrderedSet ClassPath} (absent : cache.has cls = false)
    (made : (make r depth cls cache).result = .ok pending) :
    r.free (make r depth cls cache).cache < r.free cache := by
  have hframed := make_framed r depth cls cache
  have cached := has_of_make made
  have registered : r.contains cls = true := by
    cases depth with
    | zero => cases made
    | succ depth =>
      rcases make_ok made with ⟨hc, -, -⟩ | ⟨p, hp, -, -⟩
      · simp [absent] at hc
      · cases hchain : r.ancestorChain cls with
        | error e => rw [Progress.replay_refused hchain] at hp; cases hp
        | ok chain =>
          have ha := Registry.ancestorChain_eq_ok_iff.1 hchain
          exact ha.contains cls ha.mem_self
  have unlocked := hframed.grown.free cls (hframed.grown.mem_of_new cached absent)
  refine Registry.free_lt (fun k => hframed.grown.mono) (fun k hk => ?_) registered absent unlocked
    (Or.inl cached)
  rwa [SchemaCache.isLocked, hframed.locks]

end Attempt

namespace SchemaCache

/-- A compilation ends, and no more than `depth` levels of work lie inside each other. The work on
the class itself is one of them, also while the queue is worked off. -/
inductive Finishes (r : Registry) (cache : SchemaCache) (cls : ClassPath) :
    (depth : Nat) → (handled : List ClassPath) →
      SchemaCache × Except SchemaError FieldTable → Prop where
  | cached {depth table} (found : cache.get? cls = some table) :
      Finishes r cache cls (depth + 1) [] (cache, .ok table)
  | failed {depth a e} (absent : cache.get? cls = none)
      (ran : Attempt.Runs r (depth + 1) cls cache a)
      (failed : a.result = .error (.fault e)) :
      Finishes r cache cls (depth + 1) [] (a.cache.eraseAll a.compiled, .error e)
  | settled {depth a pending handled b} (absent : cache.get? cls = none)
      (ran : Attempt.Runs r (depth + 1) cls cache a) (made : a.result = .ok pending)
      (drained : Attempt.Drains r depth pending a.cache a.compiled handled b) :
      Finishes r cache cls (depth + 1) handled (b.outcome cls)

variable {r : Registry} {cache : SchemaCache} {cls : ClassPath} {depth depth' : Nat}
variable {handled handled' : List ClassPath}
variable {result result' : SchemaCache × Except SchemaError FieldTable}

theorem Finishes.unique (h : Finishes r cache cls depth handled result)
    (h' : Finishes r cache cls depth' handled' result') : handled' = handled ∧ result' = result := by
  cases h with
  | cached found =>
    cases h' with
    | cached found' => cases found.symm.trans found'; exact ⟨rfl, rfl⟩
    | failed absent' | settled absent' => cases found.symm.trans absent'
  | failed absent ran failed =>
    cases ran.eq_make
    cases h' with
    | cached found' => cases absent.symm.trans found'
    | failed _ ran' failed' =>
      cases ran'.eq_make
      cases failed.symm.trans failed'
      exact ⟨rfl, rfl⟩
    | settled _ ran' made' =>
      cases ran'.eq_make
      cases failed.symm.trans made'
  | settled absent ran made drained =>
    cases ran.eq_make
    cases h' with
    | cached found' => cases absent.symm.trans found'
    | failed _ ran' failed' =>
      cases ran'.eq_make
      cases made.symm.trans failed'
    | settled _ ran' made' drained' =>
      cases ran'.eq_make
      cases made.symm.trans made'
      obtain ⟨rfl, rfl⟩ := drained.unique drained'
      exact ⟨rfl, rfl⟩

theorem Finishes.handles (h : Finishes r cache cls depth handled result) :
    handled.Nodup ∧ ∀ c ∈ handled, r.contains c = true ∧ cache.has c = false := by
  cases h with
  | cached | failed => simp
  | settled absent ran made drained =>
    obtain ⟨distinct, fresh⟩ := drained.nodup
    have registered := drained.contains fun c hc => ran.pending_contains made hc
    refine ⟨distinct, fun c hc => ⟨registered c hc, Bool.eq_false_iff.2 fun old => ?_⟩⟩
    simpa [fresh c hc] using ran.framed.grown.mono old

theorem finishes_compile (r : Registry) (cache : SchemaCache) (cls : ClassPath) :
    ∃ handled, Finishes r cache cls (r.free cache + 1) handled (cache.compile r cls) := by
  cases found : cache.get? cls with
  | some table =>
    have hcompile : cache.compile r cls = (cache, .ok table) := by
      simp only [compile_eq_match, found]
    rw [hcompile]
    exact ⟨[], .cached found⟩
  | none =>
    have bounded := Attempt.make_ne_tooDeep r cls cache
    have ran := Attempt.runs_of_make bounded
    cases made : (Attempt.first r cache cls).result with
    | error stop =>
      cases stop with
      | tooDeep => exact absurd made bounded
      | fault e =>
        have hcompile : cache.compile r cls =
            ((Attempt.first r cache cls).cache.eraseAll (Attempt.first r cache cls).compiled,
              .error e) := by
          simp only [compile_eq_match, found, made, Stop.error]
        rw [hcompile]
        exact ⟨[], .failed found ran made⟩
    | ok pending =>
      -- The queue's work lies below that on the class itself, which has taken one free class.
      have levels := Attempt.free_lt_of_make (has_eq_false_iff.2 found) made
      obtain ⟨handled, drained⟩ :=
        Attempt.drains_of_settle _ pending levels (Attempt.whole_ne_tooDeep made)
      have hcompile :
          cache.compile r cls = (Attempt.whole r cache cls pending).outcome cls := by
        simp only [compile_eq_match, found, made]
        rfl
      rw [hcompile]
      exact ⟨handled, .settled found ran made drained⟩

/-- Compilation ends for every registry and every cache, with the one result that there can be. No
more levels of work lie inside each other than there are classes that are registered and neither
cached nor locked, and one more. The queue handles no class twice. -/
theorem compile_terminates (r : Registry) (cache : SchemaCache) (cls : ClassPath) :
    ∃ handled : List ClassPath,
      Finishes r cache cls (r.free cache + 1) handled (cache.compile r cls) ∧
      handled.Nodup ∧
      (∀ c ∈ handled, r.contains c = true ∧ cache.has c = false) ∧
      ∀ depth handled' result, Finishes r cache cls depth handled' result →
        handled' = handled ∧ result = cache.compile r cls := by
  obtain ⟨handled, finished⟩ := finishes_compile r cache cls
  obtain ⟨distinct, fresh⟩ := finished.handles
  exact ⟨handled, finished, distinct, fresh, fun _ _ _ other => finished.unique other⟩

end SchemaCache

end LazyBinding
