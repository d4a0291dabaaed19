import LazyBinding.Proofs.Flattening
import LazyBinding.Proofs.Transaction

/-!
# What successful work has cached

Work that succeeds has cached classes below the one it was asked for. Each of them is grounded, its
dependencies are cached, its table is its flattening, and the classes of its fields are cached or
handed on. A queue that is worked off leaves no field class uncached.
-/
namespace LazyBinding

open Relation (ReflTransGen TransGen)

variable {r : Registry} {nested : ClassPath → SchemaCache → Attempt}
variable {cache cache' : SchemaCache} {chain done : List ClassPath} {cls q : ClassPath}

/-- Every table is the flattening of a grounded class whose parent and imports are cached. -/
def SchemaCache.Justified (r : Registry) (cache : SchemaCache) : Prop :=
  ∀ k table, cache.get? k = some table →
    r.Grounded k ∧ r.Flattens k table ∧ ∀ u, r.DependsOn k u → cache.has u = true

/-- No field class of a cached class is forgotten: it is cached too or waits in the queue. -/
def SchemaCache.Awaits (r : Registry) (cache : SchemaCache) (queue : List ClassPath) : Prop :=
  ∀ k, cache.has k = true → ∀ u, r.FieldRefers k u → cache.has u = true ∨ u ∈ queue

/-- What work on `cls` adds to a cache lies below `cls`, and the classes of its fields are cached or
pending. What is pending comes from such fields. -/
structure Collects (r : Registry) (cls : ClassPath) (cache cache' : SchemaCache)
    (pending : List ClassPath) : Prop where
  below : ∀ k, cache'.has k = true → cache.has k = false → ReflTransGen r.DependsOn cls k
  fields : ∀ k, cache'.has k = true → cache.has k = false →
    ∀ u, r.FieldRefers k u → cache'.has u = true ∨ u ∈ pending
  sources : ∀ u ∈ pending, ∃ k, ReflTransGen r.DependsOn cls k ∧ r.FieldRefers k u

theorem Collects.refl (cls : ClassPath) (cache : SchemaCache) : Collects r cls cache cache [] where
  below k hk hn := by simp [hk] at hn
  fields k hk hn := by simp [hk] at hn
  sources := by simp

theorem Collects.trans {t : ClassPath} {mid : SchemaCache} {pending pending' : List ClassPath}
    (h : Collects r cls cache mid pending) (h' : Collects r t mid cache' pending')
    (ht : ReflTransGen r.DependsOn cls t)
    (mono : ∀ k, mid.has k = true → cache'.has k = true) :
    Collects r cls cache cache' (OrderedSet.addAll pending pending') where
  below k hk hn := by
    cases hmid : mid.has k with
    | true => exact h.below k hmid hn
    | false => exact ht.trans (h'.below k hk hmid)
  fields k hk hn u hu := by
    rw [OrderedSet.mem_addAll]
    cases hmid : mid.has k with
    | true => exact (h.fields k hmid hn u hu).imp (mono u) Or.inl
    | false => exact (h'.fields k hk hmid u hu).imp id Or.inr
  sources u hu := by
    rcases OrderedSet.mem_addAll.1 hu with hu | hu
    · exact h.sources u hu
    · obtain ⟨k, hk, hku⟩ := h'.sources u hu
      exact ⟨k, ht.trans hk, hku⟩

/-- What success of the work on `cls` promises about the cache it leaves. -/
def Attempt.Delivers (r : Registry) (cls : ClassPath) (cache : SchemaCache) (a : Attempt) : Prop :=
  ∀ pending, a.result = .ok pending → Collects r cls cache a.cache pending ∧
    (cache.Justified r → a.cache.Justified r)

namespace Progress

/-- A declaration of the class `q` that has been carried out. -/
def Handled (r : Registry) (chain : List ClassPath) (q : ClassPath) (p : Progress) :
    Declaration → Prop
  | .field name definition => name ≠ "" ∧ ∃ type, FieldType.parse r q definition = .ok type ∧
      ∀ u, type.class? = some u → p.cache.has u = true ∨ u ∈ p.pending
  | .imports reference => ∃ t, r.resolve reference q = some t ∧ t ∉ chain ∧ p.cache.has t = true

theorem Handled.mono {p p' : Progress} {x : Declaration} (h : Handled r chain q p x)
    (cached : ∀ k, p.cache.has k = true → p'.cache.has k = true)
    (pending : ∀ k, k ∈ p.pending → k ∈ p'.pending) : Handled r chain q p' x := by
  cases x with
  | field name definition =>
    obtain ⟨named, type, hparse, hu⟩ := h
    exact ⟨named, type, hparse, fun u ht => (hu u ht).imp (cached u) (pending u)⟩
  | imports reference =>
    obtain ⟨t, ht, hchain, hhas⟩ := h
    exact ⟨t, ht, hchain, cached t hhas⟩

/-- Between two classes: the working table is the one from which the next class starts. -/
structure Between (r : Registry) (cls : ClassPath) (cache : SchemaCache) (done : List ClassPath)
    (p : Progress) : Prop where
  collects : Collects r cls cache p.cache p.pending
  justified : cache.Justified r → p.cache.Justified r
  working : cache.Justified r → ∀ q, r.Ancestry q (done ++ [q]) → r.Replays q [] p.working

/-- Inside the class `q`, after its declarations `ds`. -/
structure Inside (r : Registry) (cls : ClassPath) (cache : SchemaCache) (chain : List ClassPath)
    (q : ClassPath) (ds : List Declaration) (p : Progress) : Prop where
  collects : Collects r cls cache p.cache p.pending
  handled : ∀ x ∈ ds, Handled r chain q p x
  justified : cache.Justified r → p.cache.Justified r
  working : cache.Justified r → r.Replays q ds p.working

theorem mem_await {p : Progress} {type : FieldType} {u : ClassPath} :
    u ∈ p.await type ↔ u ∈ p.pending ∨ type.class? = some u ∧ p.cache.has u = false := by
  unfold await
  cases hc : type.class? with
  | none => simp
  | some t =>
    by_cases ht : p.cache.has t = true
    · simp only [ht, if_true]
      constructor
      · exact Or.inl
      · rintro (h | ⟨h, hn⟩)
        · exact h
        · cases h; simp [ht] at hn
    · simp only [ht, Bool.false_eq_true, if_false, OrderedSet.mem_add, Option.some.injEq]
      constructor
      · rintro (h | rfl)
        · exact Or.inl h
        · exact Or.inr ⟨rfl, by simpa using ht⟩
      · rintro (h | ⟨rfl, -⟩)
        · exact Or.inl h
        · exact Or.inr rfl

theorem Inside.field {p : Progress} {ds : List Declaration} {d : ClassDecl}
    {name definition : String} {type : FieldType} (hd : r.get? q = some d)
    (hmem : .field name definition ∈ d.declarations) (hq : ReflTransGen r.DependsOn cls q)
    (h : Inside r cls cache chain q ds p) (named : name ≠ "")
    (parsed : FieldType.parse r q definition = .ok type) :
    Inside r cls cache chain q (ds ++ [.field name definition])
      { p with pending := p.await type, working := Dict.put p.working name type } where
  collects := {
    below := h.collects.below
    fields := fun k hk hn u hu =>
      (h.collects.fields k hk hn u hu).imp id fun hu => mem_await.2 (Or.inl hu)
    sources := fun u hu => by
      rcases mem_await.1 hu with hu | ⟨ht, -⟩
      · exact h.collects.sources u hu
      · exact ⟨q, hq, d, name, definition, type, hd, hmem, parsed, ht⟩ }
  handled x hx := by
    rcases List.mem_append.1 hx with hx | hx
    · exact (h.handled x hx).mono (fun _ => id) fun k hk => mem_await.2 (Or.inl hk)
    · rw [List.mem_singleton.1 hx]
      refine ⟨named, type, parsed, fun u hu => ?_⟩
      by_cases hc : p.cache.has u = true
      · exact Or.inl hc
      · exact Or.inr (mem_await.2 (Or.inr ⟨hu, by simpa using hc⟩))
  justified := h.justified
  working hj := .field (h.working hj) parsed

theorem Inside.imports {p p' : Progress} {ds : List Declaration} {reference : String}
    {t : ClassPath} {table : FieldTable} (h : Inside r cls cache chain q ds p)
    (resolved : r.resolve reference q = some t) (notInChain : t ∉ chain)
    (collects : Collects r cls cache p'.cache p'.pending)
    (cached : ∀ k, p.cache.has k = true → p'.cache.has k = true)
    (pending : ∀ k, k ∈ p.pending → k ∈ p'.pending)
    (justified : cache.Justified r → p'.cache.Justified r)
    (found : p'.cache.get? t = some table) (hw : p'.working = Dict.putAll p.working table) :
    Inside r cls cache chain q (ds ++ [.imports reference]) p' where
  collects := collects
  handled x hx := by
    rcases List.mem_append.1 hx with hx | hx
    · exact (h.handled x hx).mono cached pending
    · rw [List.mem_singleton.1 hx]
      exact ⟨t, resolved, notInChain, SchemaCache.has_iff.2 ⟨table, found⟩⟩
  justified := justified
  working hj := by
    obtain ⟨-, ⟨d, hd, ht⟩, -⟩ := justified hj t table found
    rw [hw]
    exact .imports (h.working hj) resolved hd ht

theorem Declares.inside (frames : ∀ t c, (nested t c).Framed c)
    (delivers : ∀ t c, (nested t c).Delivers r t c) {p p' : Progress} {ds : List Declaration}
    {d : ClassDecl} {x : Declaration} (hd : r.get? q = some d) (hmem : x ∈ d.declarations)
    (hq : ReflTransGen r.DependsOn cls q) (hx : Declares r nested chain q p x p')
    (h : Inside r cls cache chain q ds p) : Inside r cls cache chain q (ds ++ [x]) p' := by
  cases hx with
  | field named parsed => exact h.field hd hmem hq named parsed
  | cached resolved isOpen found =>
    exact h.imports resolved isOpen.notInChain h.collects (fun _ => id) (fun _ => id)
      h.justified found rfl
  | @nested reference t table pending resolved isOpen absent made found =>
    obtain ⟨hcollects, hjust⟩ := delivers t p.cache pending made
    have hmono : ∀ k, p.cache.has k = true → (nested t p.cache).cache.has k = true :=
      fun k => (frames t p.cache).grown.mono
    have ht : ReflTransGen r.DependsOn cls t :=
      hq.tail (Or.inr ⟨d, reference, hd, hmem, resolved⟩)
    exact h.imports resolved isOpen.notInChain (h.collects.trans hcollects ht hmono) hmono
      (fun k hk => OrderedSet.mem_addAll.2 (Or.inl hk)) (fun hj => hjust (h.justified hj)) found rfl

theorem replays_of_flattens {table : FieldTable} (h : r.Flattens q table) {c : ClassPath}
    (ha : r.Ancestry c (done ++ [q] ++ [c])) : r.Replays c [] table := by
  obtain ⟨d, hd, ht⟩ := h
  exact .start ha.hasParent hd ht

theorem Inside.grounded {p : Progress} {rest : List ClassPath} {d : ClassDecl}
    (ha : r.Ancestry cls (done ++ q :: rest)) (hd : r.get? q = some d)
    (visited : ∀ c ∈ done, p.cache.has c = true) (hj : cache.Justified r)
    (h : Inside r cls cache (done ++ q :: rest) q d.declarations p) :
    r.Grounded q ∧ ∀ u, r.DependsOn q u → p.cache.has u = true := by
  have hq := ha.cut.1
  have below : ∀ u, r.DependsOn q u → p.cache.has u = true := by
    rintro u (hu | ⟨d', reference, hd', hmem, hu⟩)
    · exact visited u (hq.parent hu).mem_self
    · cases hd.symm.trans hd'
      obtain ⟨t, ht, -, hhas⟩ := h.handled _ hmem
      cases hu.symm.trans ht
      exact hhas
  refine ⟨.intro hd hq.exists_parent ?_ fun u hu => ?_, below⟩
  · intro x hx
    have hh := h.handled x hx
    cases x with
    | field name definition =>
      obtain ⟨named, type, hparse, -⟩ := hh
      exact ⟨named, type, hparse⟩
    | imports reference =>
      obtain ⟨t, ht, hchain, -⟩ := hh
      refine ⟨t, ht, fun hdesc => hchain ?_⟩
      rcases List.mem_append.1 (hq.mem_iff.2 hdesc) with ht | ht
      · exact List.mem_append_left _ ht
      · exact List.mem_append_right _ (List.mem_cons.2 (Or.inl (List.mem_singleton.1 ht)))
  · obtain ⟨table, ht⟩ := SchemaCache.has_iff.1 (below u hu)
    exact (h.justified hj u table ht).1

theorem Inside.finish {p : Progress} {rest : List ClassPath} {d : ClassDecl}
    (ha : r.Ancestry cls (done ++ q :: rest)) (hd : r.get? q = some d)
    (visited : ∀ c ∈ done, p.cache.has c = true)
    (h : Inside r cls cache (done ++ q :: rest) q d.declarations p) :
    Between r cls cache (done ++ [q]) (p.finish q) where
  collects := {
    below := fun k hk hn => by
      rcases has_finish.1 hk with rfl | hk
      · exact (ha.mem_iff.1 (by simp)).dependsOn
      · exact h.collects.below k hk hn
    fields := fun k hk hn u hu => by
      have hu : p.cache.has u = true ∨ u ∈ p.pending := by
        rcases has_finish.1 hk with rfl | hk
        · obtain ⟨d', name, definition, type, hd', hmem, hparse, ht⟩ := hu
          cases hd.symm.trans hd'
          obtain ⟨-, type', hparse', hcached⟩ := h.handled _ hmem
          cases hparse.symm.trans hparse'
          exact hcached u ht
        · exact h.collects.fields k hk hn u hu
      exact hu.imp (fun hu => has_finish.2 (Or.inr hu)) id
    sources := h.collects.sources }
  justified hj := by
    intro k table hk
    obtain ⟨hground, hbelow⟩ := h.grounded ha hd visited hj
    rw [get?_finish] at hk
    split at hk
    · next hkq =>
      cases hk
      subst hkq
      exact ⟨hground, ⟨d, hd, h.working hj⟩, fun u hu => has_finish.2 (Or.inr (hbelow u hu))⟩
    · obtain ⟨hg, hf, hclosed⟩ := h.justified hj k table hk
      exact ⟨hg, hf, fun u hu => has_finish.2 (Or.inr (hclosed u hu))⟩
  working hj c hc := replays_of_flattens ⟨d, hd, h.working hj⟩ hc

theorem between_opening (distinct : chain.Nodup)
    (free : ∀ c ∈ chain, cache.isLocked c = false) :
    Between r cls cache [] (opening chain cache) := by
  have hcache := opening_cache distinct free
  have hcollects := Collects.refl (r := r) cls cache
  refine ⟨?_, ?_, ?_⟩
  · rw [hcache]
    exact ⟨hcollects.below, hcollects.fields, hcollects.sources⟩
  · rw [hcache]
    exact id
  · intro _ c hc
    generalize hl : [] ++ [c] = l at hc
    cases hc with
    | root => exact .root
    | child hp ha =>
      obtain ⟨front, rfl⟩ := ha.ends
      exact absurd (congrArg List.length hl) (by simp)

/-- At every step of a replay the working table is that of the declarations carried out so far, and
what has been cached is justified. -/
theorem walk_delivers (frames : ∀ t c, (nested t c).Framed c)
    (delivers : ∀ t c, (nested t c).Delivers r t c) (ha : r.Ancestry cls chain)
    (free : ∀ c ∈ chain, cache.isLocked c = false) :
    Walk r nested chain
      (fun done p => Framed cache chain done p ∧ Between r cls cache done p)
      (fun done q ds p => (Framed cache chain done p ∧ q ∈ p.held) ∧
        Inside r cls cache chain q ds p) (fun _ => True) := by
  have frame := walk_framed (r := r) frames ha.nodup free
  refine ⟨?_, ?_, ?_, fun _ _ _ _ _ _ _ _ _ _ _ _ _ _ => trivial, ?_⟩
  · intro done q rest p table hchain ⟨hf, hb⟩ found
    refine ⟨frame.cached done q rest p table hchain hf found, hb.collects, hb.justified, ?_⟩
    intro hj c hc
    exact replays_of_flattens (hb.justified hj q table found).2.1 hc
  · intro done q rest p hchain ⟨hf, hb⟩ found
    refine ⟨frame.enter done q rest p hchain hf found, hb.collects, by simp, hb.justified, ?_⟩
    intro hj
    exact hb.working hj q (hchain ▸ ha).cut.1
  · intro done q rest d ds x more p p' hchain hd hds ⟨hf, hi⟩ hx
    have hq : ReflTransGen r.DependsOn cls q := (ha.mem_iff.1 (by simp [hchain])).dependsOn
    exact ⟨frame.declares done q rest d ds x more p p' hchain hd hds hf hx,
      hx.inside frames delivers hd (by simp [hds]) hq hi⟩
  · intro done q rest d p hchain hd ⟨hf, hi⟩
    subst hchain
    exact ⟨frame.finish done q rest d p rfl hd hf, hi.finish ha hd hf.1.visited⟩

theorem replay_delivers (frames : ∀ t c, (nested t c).Framed c)
    (delivers : ∀ t c, (nested t c).Delivers r t c) (cls : ClassPath) (cache : SchemaCache) :
    Ends (fun p => Collects r cls cache p.cache p.pending ∧
      (cache.Justified r → p.cache.Justified r)) (fun _ => True) (replay r nested cls cache) := by
  refine replay_ends (fun _ _ => trivial) (fun _ _ _ _ => trivial) ?_
  intro chain ha hfree
  have start : Framed cache chain [] (opening chain cache) ∧
      Between r cls cache [] (opening chain cache) :=
    ⟨framed_opening ha.nodup hfree, between_opening ha.nodup hfree⟩
  refine ((walk_delivers frames delivers ha hfree).ends ha.contains start).imp ?_ fun _ => id
  intro p ⟨hf, hb⟩
  exact ⟨hf.visited cls ha.mem_self, hb.collects, hb.justified⟩

end Progress

namespace Attempt

theorem make_delivers (r : Registry) (depth : Nat) (cls : ClassPath) (cache : SchemaCache) :
    (make r depth cls cache).Delivers r cls cache := by
  induction depth generalizing cls cache with
  | zero => intro pending h; cases h
  | succ depth ih =>
    intro pending h
    rcases make_ok h with ⟨hc, hcache, rfl⟩ | ⟨p, hp, hcache, rfl⟩
    · rw [hcache]
      exact ⟨.refl cls cache, id⟩
    · have hreplay := Progress.replay_delivers (make_framed r depth) ih cls cache
      rw [hp] at hreplay
      rw [hcache]
      exact hreplay

theorem pending_refersTo {depth : Nat} {pending : OrderedSet ClassPath} {u : ClassPath}
    (made : (make r depth cls cache).result = .ok pending) (hu : u ∈ pending) :
    ReflTransGen r.RefersTo cls u := by
  obtain ⟨k, hk, hku⟩ := (make_delivers r depth cls cache pending made).1.sources u hu
  exact (Registry.RefersTo.of_dependsOn hk).tail (Or.inr hku)

theorem pending_contains {depth : Nat} {pending : OrderedSet ClassPath} {u : ClassPath}
    (made : (make r depth cls cache).result = .ok pending) (hu : u ∈ pending) :
    r.contains u = true := by
  obtain ⟨k, -, hku⟩ := (make_delivers r depth cls cache pending made).1.sources u hu
  exact hku.contains

/-- A queue that is worked off leaves nothing to wait for. -/
theorem settle_delivers {compiled left : OrderedSet ClassPath} (budget : Nat)
    (queue : List ClassPath) (justified : cache.Justified r) (awaits : cache.Awaits r queue)
    (h : (settle r budget queue cache compiled).result = .ok left) :
    (settle r budget queue cache compiled).cache.Justified r ∧
      (settle r budget queue cache compiled).cache.Awaits r [] := by
  fun_induction settle r budget queue cache compiled with
  | case1 => exact ⟨justified, awaits⟩
  | case2 cache compiled budget cls rest hc ih =>
    refine ih justified (fun k hk u hu => ?_) h
    rcases awaits k hk u hu with hu | hu
    · exact Or.inl hu
    · rcases List.mem_cons.1 hu with rfl | hu
      · exact Or.inl hc
      · exact Or.inr hu
  | case3 => cases h
  | case4 => cases h
  | case5 cache compiled cls rest hc budget nested compiled' pending hs ih =>
    obtain ⟨hcollects, hjust⟩ := make_delivers r (r.free cache + 1) cls cache pending hs
    have hmono := fun k => (make_framed r (r.free cache + 1) cls cache).grown.mono (k := k)
    refine ih (hjust justified) (fun k hk u hu => ?_) h
    rw [List.mem_append]
    cases hold : cache.has k with
    | true =>
      rcases awaits k hold u hu with hu | hu
      · exact Or.inl (hmono u hu)
      · rcases List.mem_cons.1 hu with rfl | hu
        · exact Or.inl (has_of_make hs)
        · exact Or.inr (Or.inl hu)
    | false => exact (hcollects.fields k hk hold u hu).imp id Or.inr

end Attempt

namespace SchemaCache

/-- A cache between two compilations: nothing is locked, and every table is justified and waits for
nothing. -/
structure Settled (r : Registry) (cache : SchemaCache) : Prop where
  unlocked : cache.locks = []
  justified : cache.Justified r
  awaits : cache.Awaits r []

theorem settled_empty (r : Registry) : Settled r .empty where
  unlocked := rfl
  justified _ _ hk := by cases hk
  awaits _ hk := by cases hk

namespace Settled

theorem isLocked (h : cache.Settled r) (k : ClassPath) : cache.isLocked k = false := by
  rw [isLocked_eq_false_iff, h.unlocked]
  simp

theorem grounded (h : cache.Settled r) {k : ClassPath} (hk : cache.has k = true) :
    r.Grounded k := by
  obtain ⟨table, hk⟩ := has_iff.1 hk
  exact (h.justified k table hk).1

theorem refersTo (h : cache.Settled r) {k u : ClassPath} (hk : cache.has k = true)
    (hu : r.RefersTo k u) : cache.has u = true := by
  rcases hu with hu | hu
  · obtain ⟨table, hk⟩ := has_iff.1 hk
    exact (h.justified k table hk).2.2 u hu
  · exact (h.awaits k hk u hu).resolve_right (by simp)

theorem reaches (h : cache.Settled r) {k u : ClassPath} (hk : cache.has k = true)
    (hu : ReflTransGen r.RefersTo k u) : cache.has u = true := by
  induction hu with
  | refl => exact hk
  | tail _ hu ih => exact h.refersTo ih hu

/-- A compilation leaves the cache settled, whether it succeeds or not. -/
theorem compile (h : cache.Settled r) (cls : ClassPath) :
    ((cache.compile r cls).1).Settled r := by
  have hcases := compile_cases r cache cls
  generalize cache.compile r cls = result at hcases ⊢
  cases hcases with
  | failed | queueFailed => exact h
  | @compiled pending left table made settled found =>
    have hfirst := Attempt.make_framed r (r.free cache + 1) cls cache
    obtain ⟨hcollects, hjust⟩ := Attempt.make_delivers r (r.free cache + 1) cls cache pending made
    have hawaits : (Attempt.first r cache cls).cache.Awaits r pending := by
      intro k hk u hu
      cases hold : cache.has k with
      | true => exact Or.inl (hfirst.grown.mono (h.refersTo hold (Or.inr hu)))
      | false => exact hcollects.fields k hk hold u hu
    obtain ⟨hj, ha⟩ := Attempt.settle_delivers _ pending (hjust h.justified) hawaits settled
    exact ⟨(Attempt.whole_framed r cache cls pending).locks.trans h.unlocked, hj, ha⟩

theorem flattens (h : cache.Settled r) {table : FieldTable}
    (hok : (cache.compile r cls).2 = .ok table) : r.Flattens cls table :=
  ((h.compile cls).justified cls table (get?_of_compile hok)).2.1

end Settled

end SchemaCache

end LazyBinding
