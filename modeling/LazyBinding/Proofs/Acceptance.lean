import LazyBinding.Proofs.NestingDepth

/-!
# Which classes compile

The classes locked during the work on a class are those being worked on and those that descend from
them. If a class that this work depends on were locked, it would lie on a cycle. So the locks stop
nothing that is grounded, and a compilation succeeds exactly if all classes that can be reached from
its class are in order. The table that it gives is then the flattening of its class.
-/
namespace LazyBinding

open Relation (ReflTransGen TransGen)

variable {r : Registry} {cache : SchemaCache} {done rest : List ClassPath} {cls q : ClassPath}

namespace Progress

theorem Framed.unlocked_below {p : Progress} {u : ClassPath}
    (h : Framed cache (done ++ q :: rest) done p) (ha : r.Ancestry cls (done ++ q :: rest))
    (hq : r.Grounded q) (hu : TransGen r.DependsOn q u) (free : cache.isLocked u = false) :
    p.cache.isLocked u = false := by
  refine Bool.eq_false_iff.2 fun hlocked => ?_
  rcases h.isLocked_iff.1 hlocked with hlocked | ⟨hmem, habsent⟩
  · exact SchemaCache.isLocked_eq_false_iff.1 free hlocked
  · rcases List.mem_append.1 hmem with hmem | hmem
    · simp [h.visited u hmem] at habsent
    · rcases List.mem_cons.1 hmem with rfl | hmem
      · exact hq.acyclic hu
      · exact hq.acyclic (hu.trans (Registry.DependsOn.of_descent (ha.cut.2 u hmem)))

theorem Fails.tooDeep_of_grounded {depth : Nat} {p : Progress} {s : Halt} {d : ClassDecl}
    {x : Declaration}
    (nested : ∀ t c, r.Grounded t → (∀ u, ReflTransGen r.DependsOn t u → c.isLocked u = false) →
      ∀ e, (Attempt.make r depth t c).result ≠ .error (.fault e))
    (h : Framed cache (done ++ q :: rest) done p) (ha : r.Ancestry cls (done ++ q :: rest))
    (hq : r.Grounded q) (hd : r.get? q = some d) (hmem : x ∈ d.declarations)
    (free : ∀ u, ReflTransGen r.DependsOn q u → cache.isLocked u = false)
    (hx : Fails r (Attempt.make r depth) (done ++ q :: rest) q p x s) : s.stop = .tooDeep := by
  have hadm := hq.sound.admissible d hd x hmem
  have below : ∀ u, TransGen r.DependsOn q u → p.cache.isLocked u = false :=
    fun u hu => h.unlocked_below ha hq hu (free u hu.to_reflTransGen)
  cases hx with
  | unnamed => exact absurd rfl hadm.1
  | unparsed _ parsed =>
    obtain ⟨-, type, hparse⟩ := hadm
    cases parsed.symm.trans hparse
  | unresolved resolved =>
    obtain ⟨t, ht, -⟩ := hadm
    cases resolved.symm.trans ht
  | @circular reference target resolved closed =>
    obtain ⟨t, ht, hdesc⟩ := hadm
    cases resolved.symm.trans ht
    have himport : r.DependsOn q target := Or.inr ⟨d, reference, hd, hmem, resolved⟩
    rcases closed with rfl | hchain | hlocked
    · exact absurd .refl hdesc
    · rcases List.mem_append.1 hchain with hdone | hrest
      · exact absurd (ha.cut.1.mem_iff.1 (by simp [hdone])) hdesc
      · rcases List.mem_cons.1 hrest with rfl | hrest
        · exact absurd .refl hdesc
        · exact absurd
            (.head himport (Registry.DependsOn.of_descent (ha.cut.2 target hrest))) hq.acyclic
    · simp [below target (.single himport)] at hlocked
  | @imported reference target e resolved isOpen absent made =>
    have himport : r.DependsOn q target := Or.inr ⟨d, reference, hd, hmem, resolved⟩
    exact absurd made (nested target p.cache (hq.all_below (.single himport))
      (fun u hu => below u (.head' himport hu)) e)
  | tooDeep => rfl
  | missing _ _ _ made found =>
    have := Attempt.has_of_make made
    rw [SchemaCache.has_eq_false_iff.2 found] at this
    cases this

end Progress

namespace Attempt

theorem make_of_grounded {depth : Nat} (h : r.Grounded cls)
    (free : ∀ u, ReflTransGen r.DependsOn cls u → cache.isLocked u = false) :
    ∀ e, (make r depth cls cache).result ≠ .error (.fault e) := by
  induction depth generalizing cls cache with
  | zero => simp [make]
  | succ depth ih =>
    have hreplay : Ends (fun _ => True) (fun s => s.stop = .tooDeep)
        (Progress.replay r (make r depth) cls cache) := by
      refine Progress.replay_ends (fun e he => ?_) (fun chain ancestor ha hl => ?_) ?_
      · obtain ⟨chain, ha⟩ := Registry.exists_ancestry h.rooted
        cases he.symm.trans (Registry.ancestorChain_eq_ok_iff.2 ha)
      · have hbelow := (ha.mem_iff.1 (List.mem_of_find?_eq_some hl)).dependsOn
        have hlocked := List.find?_some hl
        simp [free ancestor hbelow] at hlocked
      · intro chain ha hfree
        have frame := Progress.walk_framed (r := r) (make_framed r depth) ha.nodup hfree
        have walk := frame.failing (fun s => s.stop = .tooDeep)
          fun done q rest d ds x more p s hchain hd hds known hx => by
            subst hchain
            have hq : ReflTransGen r.DependsOn cls q := (ha.mem_iff.1 (by simp)).dependsOn
            exact hx.tooDeep_of_grounded (fun t c ht hc => ih ht hc) known.1 ha (h.all_below hq) hd
              (by simp [hds]) fun u hu => free u (hq.trans hu)
        refine (walk.ends ha.contains (Progress.framed_opening ha.nodup hfree)).imp ?_ fun _ => id
        intro p hp
        exact ⟨hp.visited cls ha.mem_self, trivial⟩
    intro e he
    obtain ⟨s, hs, hstop⟩ := make_error he
    rw [hs] at hreplay
    cases hstop.symm.trans hreplay

theorem settle_of_grounded {compiled : OrderedSet ClassPath} (budget : Nat)
    (queue : List ClassPath) (unlocked : cache.locks = [])
    (h : ∀ c ∈ queue, ∀ u, ReflTransGen r.RefersTo c u → r.Grounded u) :
    ∀ e, (settle r budget queue cache compiled).result ≠ .error (.fault e) := by
  have free : ∀ {c : SchemaCache}, c.locks = [] → ∀ u, c.isLocked u = false := by
    intro c hc u
    rw [SchemaCache.isLocked_eq_false_iff, hc]
    simp
  fun_induction settle r budget queue cache compiled with
  | case1 => simp
  | case2 cache compiled budget cls rest hc ih =>
    exact ih unlocked fun c hmem => h c (List.mem_cons_of_mem _ hmem)
  | case3 => simp
  | case4 cache compiled cls rest hc budget nested compiled' stop hs =>
    intro e he
    cases he
    exact make_of_grounded (h cls (by simp) cls .refl) (fun u _ => free unlocked u) e hs
  | case5 cache compiled cls rest hc budget nested compiled' pending hs ih =>
    have hframed := make_framed r (r.free cache + 1) cls cache
    refine ih (hframed.locks.trans unlocked) fun c hmem u hu => ?_
    rcases List.mem_append.1 hmem with hmem | hmem
    · exact h c (List.mem_cons_of_mem _ hmem) u hu
    · exact h cls (by simp) u ((pending_refersTo hs hmem).trans hu)

end Attempt

namespace SchemaCache

/-- What is done to a cache from outside. -/
inductive Call where
  | compile (cls : ClassPath)
  | clear

/-- The cache that a call leaves. -/
def answer (r : Registry) (cache : SchemaCache) : Call → SchemaCache
  | .compile cls => (cache.compile r cls).1
  | .clear => .empty

/-- The cache that calls leave, beginning with an empty one. -/
def after (r : Registry) (calls : List Call) : SchemaCache := calls.foldl (answer r) .empty

theorem Settled.answer (h : cache.Settled r) (call : Call) : (cache.answer r call).Settled r := by
  cases call with
  | compile cls => exact h.compile cls
  | clear => exact settled_empty r

theorem settled_after (r : Registry) (calls : List Call) : (after r calls).Settled r := by
  have all : ∀ cache : SchemaCache, cache.Settled r →
      (calls.foldl (SchemaCache.answer r) cache).Settled r := by
    induction calls with
    | nil => exact fun _ h => h
    | cons call calls ih => exact fun cache h => ih _ (h.answer call)
  exact all .empty (settled_empty r)

/-- A compilation that succeeds has met only grounded classes. -/
theorem Settled.sound_of_compile (h : cache.Settled r) {table : FieldTable}
    (hok : (cache.compile r cls).2 = .ok table) {c : ClassPath}
    (hc : ReflTransGen r.RefersTo cls c) : r.Sound c := by
  have hcls : (cache.compile r cls).1.has cls = true := has_iff.2 ⟨table, get?_of_compile hok⟩
  have hafter := h.compile cls
  exact (hafter.grounded (hafter.reaches hcls hc)).sound

/-- A class compiles if everything that it refers to is in order. -/
theorem Settled.compile_of_sound (h : cache.Settled r)
    (hs : ∀ c, ReflTransGen r.RefersTo cls c → r.Sound c) :
    ∃ table, (cache.compile r cls).2 = .ok table := by
  have hg : ∀ c, ReflTransGen r.RefersTo cls c → r.Grounded c := fun c hc =>
    Registry.grounded_of_sound fun u hu => hs u (hc.trans (Registry.RefersTo.of_dependsOn hu))
  have hcases := compile_cases r cache cls
  generalize cache.compile r cls = result at hcases ⊢
  cases hcases with
  | @failed stop made =>
    cases stop with
    | fault e =>
      exact absurd made (Attempt.make_of_grounded (hg cls .refl) (fun u _ => h.isLocked u) e)
    | tooDeep => exact absurd made (Attempt.make_ne_tooDeep r cls cache)
  | @queueFailed pending stop made settled =>
    have hfirst := Attempt.make_framed r (r.free cache + 1) cls cache
    cases stop with
    | fault e =>
      refine absurd settled (Attempt.settle_of_grounded _ pending
        (hfirst.locks.trans h.unlocked) (fun c hmem u hu => ?_) e)
      exact hg u ((Attempt.pending_refersTo made hmem).trans hu)
    | tooDeep => exact absurd settled (Attempt.whole_ne_tooDeep made)
  | @compiled _ _ table => exact ⟨table, rfl⟩

/-- A class compiles exactly if every class that can be reached from it is in order. Cycles that
only close through fields do no harm. -/
theorem compile_accepts_iff (r : Registry) (calls : List Call) (cls : ClassPath) :
    (∃ table, ((after r calls).compile r cls).2 = .ok table) ↔
      ∀ c, ReflTransGen r.RefersTo cls c → r.Sound c := by
  constructor
  · rintro ⟨table, hok⟩ c hc
    exact (settled_after r calls).sound_of_compile hok hc
  · exact (settled_after r calls).compile_of_sound

/-- A class compiles to a table exactly if it is accepted and the table is its flattening, and every
table that is cached by then is the flattening of its class. -/
theorem compile_eq_flattening (r : Registry) (calls : List Call) (cls : ClassPath) :
    (∀ table, ((after r calls).compile r cls).2 = .ok table ↔
      (∀ c, ReflTransGen r.RefersTo cls c → r.Sound c) ∧ r.Flattens cls table) ∧
    ∀ k table, ((after r calls).compile r cls).1.get? k = some table → r.Flattens k table := by
  have h := settled_after r calls
  refine ⟨fun table => ⟨fun hok => ?_, fun ⟨hs, ht⟩ => ?_⟩, fun k table hk => ?_⟩
  · exact ⟨fun c hc => h.sound_of_compile hok hc, h.flattens hok⟩
  · obtain ⟨table', hok⟩ := h.compile_of_sound hs
    rw [hok, (h.flattens hok).unique ht]
  · exact ((h.compile cls).justified k table hk).2.1

end SchemaCache

end LazyBinding
