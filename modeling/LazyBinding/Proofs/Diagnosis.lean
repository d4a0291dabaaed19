import LazyBinding.Proofs.Acceptance

/-!
# True diagnoses

What the error of a compilation says of the registry. Each layer of the error names an import that
is there, and the cause inside names a defect that is there. That a circular reference lies on a
cycle follows from what is locked while a class is worked on: only classes that depend on it.
-/
namespace LazyBinding

open Relation (ReflTransGen TransGen)

variable {r : Registry} {cache : SchemaCache} {chain done rest : List ClassPath}
variable {cls q : ClassPath}

namespace Registry

/-- The error tells a defect of the class, or a circle that the class is on. -/
inductive Defect (r : Registry) : ClassPath → SchemaError → Prop where
  | unregistered {c} (h : r.contains c = false) : Defect r c (.badSchema c .notRegistered)
  | unknownParent {c d reference} (hd : r.get? c = some d) (hp : d.parent = some reference)
      (h : r.resolve reference c = none) : Defect r c (.badSchema c (.unknownParent reference))
  | inheritanceLoop {c a} (h : r.Descends c a) (loop : TransGen r.HasParent a a) :
      Defect r c (.badSchema c .inheritanceLoop)
  | unnamedField {c d definition} (hd : r.get? c = some d)
      (h : .field "" definition ∈ d.declarations) : Defect r c (.badSchema c .emptyFieldName)
  | badDefinition {c d name definition e} (hd : r.get? c = some d)
      (h : .field name definition ∈ d.declarations)
      (parsed : FieldType.parse r c definition = .error e) :
      Defect r c (.badDefinition c name definition e.fault)
  | unknownImport {c d reference} (hd : r.get? c = some d)
      (h : .imports reference ∈ d.declarations) (resolved : r.resolve reference c = none) :
      Defect r c (.badSchema c (.unknownImport reference))
  /-- The class imports itself or one of its ancestors. -/
  | ancestorImport {c t} (h : r.Imports c t) (above : r.Descends c t) :
      Defect r c (.circularReference c t)
  | cycle {c t} (there : TransGen r.DependsOn c t) (back : TransGen r.DependsOn t c) :
      Defect r c (.circularReference c t)

/-- The error leads from the class to a defect. Each layer is an import that has failed, by a class
that the one before depends on. -/
inductive Traced (r : Registry) : ClassPath → SchemaError → Prop where
  | defect {cls c e} (below : ReflTransGen r.DependsOn cls c) (h : r.Defect c e) : Traced r cls e
  | imported {cls owner target e} (below : ReflTransGen r.DependsOn cls owner)
      (h : r.Imports owner target) (inner : Traced r target e) :
      Traced r cls (.importFailed owner target e)

/-- The error explains why the class does not compile: it leads from the class to a defect, or from
another class that must be compiled too because a field refers to it. -/
inductive Diagnosed (r : Registry) (cls : ClassPath) : SchemaError → Prop where
  | own {e} (h : r.Traced cls e) : Diagnosed r cls e
  | field {k u e} (below : ReflTransGen r.RefersTo cls k) (refers : r.FieldRefers k u)
      (h : r.Traced u e) : Diagnosed r cls (.propertyClassFailed cls e)

private theorem traced_of_climbs {start c : ClassPath} {e : SchemaError} {below : List ClassPath}
    (h : r.Climbs start below c (.error e)) (reached : r.Descends start c)
    (met : ∀ b ∈ below, r.Descends start b ∧ TransGen r.HasParent b c) : r.Traced start e := by
  generalize hresult : Except.error e = result at h
  induction h with
  | unregistered absent =>
    cases hresult
    exact .defect reached.dependsOn (.unregistered absent)
  | metAgain _ again =>
    cases hresult
    exact .defect .refl (.inheritanceLoop (met _ again).1 (met _ again).2)
  | arrived => cases hresult
  | dangling hd _ _ names unknown =>
    cases hresult
    exact .defect reached.dependsOn (.unknownParent hd names unknown)
  | up _ hp _ ih =>
    refine ih (reached.tail hp) (fun b hb => ?_) hresult
    rcases List.mem_cons.1 hb with rfl | hb
    · exact ⟨reached, .single hp⟩
    · exact ⟨(met b hb).1, (met b hb).2.tail hp⟩

theorem traced_of_ancestorChain {c : ClassPath} {e : SchemaError}
    (h : r.ancestorChain c = .error e) : r.Traced c e :=
  traced_of_climbs (h ▸ climbs_ancestorChain r c) .refl (by simp)

end Registry

namespace Progress

/-- While the class `q` is worked on, whatever is locked is `q` or depends on it, provided that what
was locked before depends on the class whose ancestry is replayed. -/
theorem Framed.locked_dependsOn {p : Progress} {u : ClassPath}
    (h : Framed cache (done ++ q :: rest) done p) (ha : r.Ancestry cls (done ++ q :: rest))
    (locked : ∀ k, cache.isLocked k = true → TransGen r.DependsOn k cls)
    (hu : p.cache.isLocked u = true) : ReflTransGen r.DependsOn u q := by
  have hq : ReflTransGen r.DependsOn cls q := (ha.mem_iff.1 (by simp)).dependsOn
  rcases h.isLocked_iff.1 hu with hu | ⟨hmem, habsent⟩
  · exact (locked u (SchemaCache.isLocked_iff.2 hu)).to_reflTransGen.trans hq
  · rcases List.mem_append.1 hmem with hmem | hmem
    · simp [h.visited u hmem] at habsent
    · rcases List.mem_cons.1 hmem with rfl | hmem
      · exact .refl
      · exact (Registry.DependsOn.of_descent (ha.cut.2 u hmem)).to_reflTransGen

theorem Framed.defect_of_closed {p : Progress} {t : ClassPath}
    (h : Framed cache (done ++ q :: rest) done p) (ha : r.Ancestry cls (done ++ q :: rest))
    (locked : ∀ k, cache.isLocked k = true → TransGen r.DependsOn k cls) (ht : r.Imports q t)
    (closed : t = q ∨ t ∈ done ++ q :: rest ∨ p.cache.isLocked t = true) :
    r.Defect q (.circularReference q t) := by
  have behind : ReflTransGen r.DependsOn t q → r.Defect q (.circularReference q t) := by
    intro hback
    rcases Relation.reflTransGen_iff_eq_or_transGen.1 hback with rfl | hback
    · exact .ancestorImport ht .refl
    · exact .cycle (.single (Or.inr ht)) hback
  rcases closed with rfl | hchain | hlocked
  · exact behind .refl
  · rcases List.mem_append.1 hchain with hdone | hrest
    · exact .ancestorImport ht (ha.cut.1.mem_iff.1 (by simp [hdone]))
    · rcases List.mem_cons.1 hrest with rfl | hrest
      · exact behind .refl
      · exact behind (Registry.DependsOn.of_descent (ha.cut.2 t hrest)).to_reflTransGen
  · exact behind (h.locked_dependsOn ha locked hlocked)

theorem Fails.traced {depth : Nat} {p : Progress} {s : Halt} {d : ClassDecl} {x : Declaration}
    {e : SchemaError}
    (nested : ∀ t c, (∀ k, c.isLocked k = true → TransGen r.DependsOn k t) →
      ∀ e, (Attempt.make r depth t c).result = .error (.fault e) → r.Traced t e)
    (h : Framed cache (done ++ q :: rest) done p) (ha : r.Ancestry cls (done ++ q :: rest))
    (locked : ∀ k, cache.isLocked k = true → TransGen r.DependsOn k cls)
    (hd : r.get? q = some d) (hmem : x ∈ d.declarations)
    (hx : Fails r (Attempt.make r depth) (done ++ q :: rest) q p x s) (hs : s.stop = .fault e) :
    r.Traced cls e := by
  have hq : ReflTransGen r.DependsOn cls q := (ha.mem_iff.1 (by simp)).dependsOn
  cases hx with
  | unnamed => cases hs; exact .defect hq (.unnamedField hd hmem)
  | unparsed _ parsed => cases hs; exact .defect hq (.badDefinition hd hmem parsed)
  | unresolved resolved => cases hs; exact .defect hq (.unknownImport hd hmem resolved)
  | circular resolved closed =>
    cases hs
    exact .defect hq (h.defect_of_closed ha locked ⟨d, _, hd, hmem, resolved⟩ closed)
  | @imported reference target inner resolved isOpen absent made =>
    cases hs
    have himport : r.Imports q target := ⟨d, reference, hd, hmem, resolved⟩
    refine .imported hq himport (nested target p.cache (fun k hk => ?_) inner made)
    exact TransGen.tail' (h.locked_dependsOn ha locked hk) (Or.inr himport)
  | tooDeep => cases hs
  | missing _ _ _ made found =>
    have := Attempt.has_of_make made
    rw [SchemaCache.has_eq_false_iff.2 found] at this
    cases this

end Progress

namespace Attempt

/-- The error of work on a class leads from that class to a defect, if only classes that depend on
it are locked. -/
theorem make_traced {depth : Nat}
    (locked : ∀ k, cache.isLocked k = true → TransGen r.DependsOn k cls) :
    ∀ e, (make r depth cls cache).result = .error (.fault e) → r.Traced cls e := by
  induction depth generalizing cls cache with
  | zero => intro e he; cases he
  | succ depth ih =>
    have hreplay : Ends (fun _ => True) (fun s => ∀ e, s.stop = .fault e → r.Traced cls e)
        (Progress.replay r (make r depth) cls cache) := by
      refine Progress.replay_ends (fun e he e' hs => ?_) (fun chain ancestor ha hl e' hs => ?_) ?_
      · cases hs
        exact Registry.traced_of_ancestorChain he
      · -- The locked ancestor depends on the class, which descends from it.
        cases hs
        have hback := (ha.mem_iff.1 (List.mem_of_find?_eq_some hl)).dependsOn
        have hthere := locked ancestor (List.find?_some hl)
        refine .defect hback (.cycle hthere ?_)
        rcases Relation.reflTransGen_iff_eq_or_transGen.1 hback with rfl | hback
        · exact hthere
        · exact hback
      · intro chain ha hfree
        have frame := Progress.walk_framed (r := r) (make_framed r depth) ha.nodup hfree
        have walk := frame.failing (fun s => ∀ e, s.stop = .fault e → r.Traced cls e)
          fun done q rest d ds x more p s hchain hd hds ⟨hp, _⟩ hx e hs => by
            subst hchain
            exact hx.traced (fun t c hc => ih hc) hp ha locked hd (by simp [hds]) hs
        refine (walk.ends ha.contains (Progress.framed_opening ha.nodup hfree)).imp ?_ fun _ => id
        intro p hp
        exact ⟨hp.visited cls ha.mem_self, trivial⟩
    intro e he
    obtain ⟨s, hs, hstop⟩ := make_error he
    rw [hs] at hreplay
    exact hreplay e hstop

theorem pending_sources {depth : Nat} {pending : OrderedSet ClassPath} {u : ClassPath}
    (made : (make r depth cls cache).result = .ok pending) (hu : u ∈ pending) :
    ∃ k, ReflTransGen r.RefersTo cls k ∧ r.FieldRefers k u := by
  obtain ⟨k, hk, hku⟩ := (make_delivers r depth cls cache pending made).1.sources u hu
  exact ⟨k, Registry.RefersTo.of_dependsOn hk, hku⟩

theorem settle_traced {compiled : OrderedSet ClassPath} (budget : Nat) (queue : List ClassPath)
    (unlocked : cache.locks = [])
    (sources : ∀ u ∈ queue, ∃ k, ReflTransGen r.RefersTo cls k ∧ r.FieldRefers k u) :
    ∀ e, (settle r budget queue cache compiled).result = .error (.fault e) →
      ∃ k u, ReflTransGen r.RefersTo cls k ∧ r.FieldRefers k u ∧ r.Traced u e := by
  have free : ∀ {c : SchemaCache} {u}, c.locks = [] →
      ∀ k, c.isLocked k = true → TransGen r.DependsOn k u := by
    intro c u hc k hk
    rw [SchemaCache.isLocked_iff, hc] at hk
    cases hk
  fun_induction settle r budget queue cache compiled with
  | case1 => simp
  | case2 cache compiled budget first rest hc ih =>
    exact ih unlocked fun u hu => sources u (List.mem_cons_of_mem _ hu)
  | case3 => simp
  | case4 cache compiled first rest hc budget nested compiled' stop hs =>
    intro e he
    cases he
    obtain ⟨k, hk, hku⟩ := sources first (by simp)
    exact ⟨k, first, hk, hku, make_traced (free unlocked) e hs⟩
  | case5 cache compiled first rest hc budget nested compiled' pending hs ih =>
    have hframed := make_framed r (r.free cache + 1) first cache
    refine ih (hframed.locks.trans unlocked) fun u hu => ?_
    rcases List.mem_append.1 hu with hu | hu
    · exact sources u (List.mem_cons_of_mem _ hu)
    · obtain ⟨k, hk, hkf⟩ := sources first (by simp)
      obtain ⟨j, hj, hju⟩ := pending_sources hs hu
      exact ⟨j, (hk.tail (Or.inr hkf)).trans hj, hju⟩

end Attempt

namespace SchemaCache

/-- The error of a compilation is true of the registry. -/
theorem Settled.diagnosed (h : cache.Settled r) {e : SchemaError}
    (failed : (cache.compile r cls).2 = .error e) : r.Diagnosed cls e := by
  have free : ∀ {u} k, cache.isLocked k = true → TransGen r.DependsOn k u := fun k hk => by
    simp [h.isLocked] at hk
  have hcases := compile_cases r cache cls
  generalize cache.compile r cls = result at hcases failed
  cases hcases with
  | @failed stop made =>
    cases failed
    cases stop with
    | fault e => exact .own (Attempt.make_traced free e made)
    | tooDeep => exact absurd made (Attempt.make_ne_tooDeep r cls cache)
  | @queueFailed pending stop made settled =>
    cases failed
    cases stop with
    | fault e =>
      have hfirst := Attempt.make_framed r (r.free cache + 1) cls cache
      obtain ⟨k, u, hk, hku, hu⟩ := Attempt.settle_traced _ pending
        (hfirst.locks.trans h.unlocked) (fun _ hu => Attempt.pending_sources made hu) e settled
      exact .field hk hku hu
    | tooDeep => exact absurd settled (Attempt.whole_ne_tooDeep made)
  | compiled => cases failed

/-- After any calls, a compilation ends with a table, and then everything that its class refers to
is in order, or with an error that is true of the registry. -/
theorem compile_diagnosed (r : Registry) (calls : List Call) (cls : ClassPath) :
    match ((after r calls).compile r cls).2 with
    | .ok _ => ∀ c, ReflTransGen r.RefersTo cls c → r.Sound c
    | .error e => r.Diagnosed cls e := by
  have h := settled_after r calls
  split
  · next hok => exact fun c hc => h.sound_of_compile hok hc
  · next failed => exact h.diagnosed failed

end SchemaCache

end LazyBinding
