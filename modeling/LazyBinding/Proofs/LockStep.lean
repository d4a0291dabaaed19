import LazyBinding.Proofs.Acceptance

/-!
# Two compilations in lock step

Work that begins with known tables skips what is known, takes fewer locks and leaves fewer classes
to be compiled. Here it is compared step by step with work that begins without them. Wherever the
second does more, it only catches up: known classes are grounded, so working on them cannot fail,
and they refer to known classes only.
-/
namespace LazyBinding

open Relation (ReflTransGen TransGen)

/-- Two computations agree if both succeed, with related results, or both fail with the same error.
One that runs out of depth agrees with any other. -/
inductive Agree {ε α β : Type} (stop : ε → Stop) (rel : α → β → Prop) :
    Except ε α → Except ε β → Prop where
  | ok {a b} (h : rel a b) : Agree stop rel (.ok a) (.ok b)
  | fault {e s t} (left : stop s = .fault e) (right : stop t = .fault e) :
      Agree stop rel (.error s) (.error t)
  | leftDeep {s y} (h : stop s = .tooDeep) : Agree stop rel (.error s) y
  | rightDeep {x t} (h : stop t = .tooDeep) : Agree stop rel x (.error t)

namespace Agree

variable {ε α β α' β' : Type} {stop : ε → Stop} {rel : α → β → Prop} {rel' : α' → β' → Prop}
variable {x : Except ε α} {y : Except ε β}

theorem imp {rel' : α → β → Prop} (h : Agree stop rel x y) (step : ∀ a b, rel a b → rel' a b) :
    Agree stop rel' x y := by
  cases h with
  | ok h => exact .ok (step _ _ h)
  | fault left right => exact .fault left right
  | leftDeep h => exact .leftDeep h
  | rightDeep h => exact .rightDeep h

theorem and_ends {left : α → Prop} {right : β → Prop} (h : Agree stop rel x y)
    (hx : Ends left (fun _ => True) x) (hy : Ends right (fun _ => True) y) :
    Agree stop (fun a b => left a ∧ right b ∧ rel a b) x y := by
  cases h with
  | ok h => exact .ok ⟨hx, hy, h⟩
  | fault left right => exact .fault left right
  | leftDeep h => exact .leftDeep h
  | rightDeep h => exact .rightDeep h

theorem map {f : α → α'} {g : β → β'} (h : Agree stop rel x y)
    (step : ∀ a b, rel a b → rel' (f a) (g b)) : Agree stop rel' (x.map f) (y.map g) := by
  cases h with
  | ok h => exact .ok (step _ _ h)
  | fault left right => exact .fault left right
  | leftDeep h => exact .leftDeep h
  | rightDeep h => exact .rightDeep h

theorem decided (h : Agree stop rel x y) (hx : ∀ s, x = .error s → stop s ≠ .tooDeep)
    (hy : ∀ t, y = .error t → stop t ≠ .tooDeep) :
    (∃ a b, x = .ok a ∧ y = .ok b ∧ rel a b) ∨
      ∃ s t, x = .error s ∧ y = .error t ∧ stop s = stop t := by
  cases h with
  | @ok a b h => exact Or.inl ⟨a, b, rfl, rfl, h⟩
  | @fault e s t left right => exact Or.inr ⟨s, t, rfl, rfl, left.trans right.symm⟩
  | leftDeep h => exact absurd h (hx _ rfl)
  | rightDeep h => exact absurd h (hy _ rfl)

theorem of_ends {ok : α → Prop} {b : β} (h : Ends ok (fun s => stop s = .tooDeep) x)
    (step : ∀ a, ok a → rel a b) : Agree stop rel x (.ok b) := by
  cases x with
  | ok a => exact .ok (step a h)
  | error s => exact .leftDeep h

end Agree

theorem foldlM_agree {ε α σ τ : Type} {stop : ε → Stop} {f : σ → α → Except ε σ}
    {g : τ → α → Except ε τ} (rel : List α → σ → τ → Prop) {l : List α} {s : σ} {t : τ}
    (start : rel [] s t)
    (step : ∀ done x rest s t, l = done ++ x :: rest → rel done s t →
      Agree stop (rel (done ++ [x])) (f s x) (g t x)) :
    Agree stop (rel l) (l.foldlM f s) (l.foldlM g t) := by
  have all : ∀ rest done s t, l = done ++ rest → rel done s t →
      Agree stop (rel l) (rest.foldlM f s) (rest.foldlM g t) := by
    intro rest
    induction rest with
    | nil =>
      intro done s t hl hst
      rw [List.append_nil] at hl
      exact .ok (hl ▸ hst)
    | cons x rest ih =>
      intro done s t hl hst
      have hx := step done x rest s t hl hst
      rw [List.foldlM_cons, List.foldlM_cons]
      generalize f s x = fx at hx ⊢
      generalize g t x = gx at hx ⊢
      cases hx with
      | ok h => exact ih (done ++ [x]) _ _ (by simpa using hl) h
      | fault left right => exact .fault left right
      | leftDeep h => exact .leftDeep h
      | rightDeep h => exact .rightDeep h
  exact all l [] s t rfl start

variable {r : Registry} {known cold cold' warm : SchemaCache} {chain done rest : List ClassPath}
variable {cls q : ClassPath}

namespace SchemaCache

/-- The warm cache has what the cold one has and what is known. -/
def Ahead (known cold warm : SchemaCache) : Prop :=
  ∀ k, warm.has k = true ↔ cold.has k = true ∨ known.has k = true

/-- The classes that are not known. -/
def unknown (known : SchemaCache) (queue : List ClassPath) : List ClassPath :=
  queue.filter fun k => !known.has k

/-- Caching what is known does not change by what the warm cache is ahead. -/
theorem Ahead.catch_up (h : Ahead known cold warm)
    (mono : ∀ k, cold.has k = true → cold'.has k = true)
    (new : ∀ k, cold'.has k = true → cold.has k = true ∨ known.has k = true) :
    Ahead known cold' warm := by
  intro k
  rw [h k]
  constructor
  · rintro (hk | hk)
    · exact Or.inl (mono k hk)
    · exact Or.inr hk
  · rintro (hk | hk)
    · exact new k hk
    · exact Or.inr hk

theorem Ahead.has_eq (h : Ahead known cold warm) {k : ClassPath} (hk : known.has k = false) :
    warm.has k = cold.has k := by
  rw [Bool.eq_iff_iff, h k]
  simp [hk]

end SchemaCache

/-- Caches from which work can run in lock step. No class that is known is locked. -/
structure SchemaCache.Parallel (known cold warm : SchemaCache) : Prop where
  ahead : SchemaCache.Ahead known cold warm
  locks : ∀ k, cold.isLocked k = warm.isLocked k
  free : ∀ k, known.has k = true → cold.isLocked k = false

/-- Work that begins with more tables agrees with work that begins with fewer. -/
def Attempt.Agrees (known : SchemaCache) (a b : Attempt) : Prop :=
  Agree id (fun pending pending' =>
    SchemaCache.Ahead known a.cache b.cache ∧ pending' = known.unknown pending) a.result b.result

/-- Work on a known class caches and leaves known classes only. -/
theorem Attempt.made_known {depth : Nat} {pending : OrderedSet ClassPath} (h : known.Settled r)
    (hcls : known.has cls = true) (made : (make r depth cls cold).result = .ok pending) :
    known.unknown pending = [] ∧ ∀ k,
      (make r depth cls cold).cache.has k = true → cold.has k = true ∨ known.has k = true := by
  have hbelow : ∀ k, ReflTransGen r.DependsOn cls k → known.has k = true := fun k hk =>
    h.reaches hcls (Registry.RefersTo.of_dependsOn hk)
  have hcollects := (make_delivers r depth cls cold pending made).1
  refine ⟨List.filter_eq_nil_iff.2 fun u hu => ?_, fun k hk => ?_⟩
  · obtain ⟨k, hk, hku⟩ := hcollects.sources u hu
    simp [h.refersTo (hbelow k hk) (Or.inr hku)]
  · cases hold : cold.has k with
    | true => exact Or.inl rfl
    | false => exact Or.inr (hbelow k (hcollects.below k hk hold))

theorem Attempt.tooDeep_of_known {depth : Nat} {stop : Stop} (h : known.Settled r)
    (hcls : known.has cls = true) (free : ∀ k, known.has k = true → cold.isLocked k = false)
    (made : (make r depth cls cold).result = .error stop) : stop = .tooDeep := by
  cases stop with
  | tooDeep => rfl
  | fault e =>
    refine absurd made (make_of_grounded (h.grounded hcls) (fun u hu => ?_) e)
    exact free u (h.reaches hcls (Registry.RefersTo.of_dependsOn hu))

namespace Progress

variable {p p' w : Progress}

/-- The two works stand at the same place. -/
structure LockStep (known : SchemaCache) (p w : Progress) : Prop where
  ahead : SchemaCache.Ahead known p.cache w.cache
  pending : w.pending = known.unknown p.pending

/-- From `p` to `p'` nothing is done but to catch up with what is known. -/
structure CatchesUp (known : SchemaCache) (p p' : Progress) : Prop where
  mono : ∀ k, p.cache.has k = true → p'.cache.has k = true
  new : ∀ k, p'.cache.has k = true → p.cache.has k = true ∨ known.has k = true
  pending : known.unknown p'.pending = known.unknown p.pending

theorem LockStep.catch_up (h : LockStep known p w) (h' : CatchesUp known p p') :
    LockStep known p' w :=
  ⟨h.ahead.catch_up h'.mono h'.new, h.pending.trans h'.pending.symm⟩

namespace CatchesUp

theorem of_eq (cache : p'.cache = p.cache) (pending : p'.pending = p.pending) :
    CatchesUp known p p' :=
  ⟨fun k hk => by rwa [cache], fun k hk => Or.inl (by rwa [← cache]), by rw [pending]⟩

theorem trans {p'' : Progress} (h : CatchesUp known p p') (h' : CatchesUp known p' p'') :
    CatchesUp known p p'' where
  mono k hk := h'.mono k (h.mono k hk)
  new k hk := (h'.new k hk).elim (h.new k) Or.inr
  pending := h'.pending.trans h.pending

theorem field {name : String} {type : FieldType}
    (hu : ∀ u, type.class? = some u → known.has u = true) :
    CatchesUp known p
      { p with pending := p.await type, working := Dict.put p.working name type } where
  mono _ := id
  new _ := Or.inl
  pending := by
    simp only [await]
    split
    · rfl
    · next u ht =>
      split
      · rfl
      · simp [SchemaCache.unknown, OrderedSet.filter_add, hu u ht]

theorem nested {depth : Nat} {t : ClassPath} {pending : OrderedSet ClassPath}
    (h : known.Settled r) (ht : known.has t = true)
    (made : (Attempt.make r depth t p.cache).result = .ok pending) (table : FieldTable) :
    CatchesUp known p
      { p.adopt (Attempt.make r depth t p.cache) with
        pending := OrderedSet.addAll p.pending pending
        working := Dict.putAll p.working table } where
  mono _ := (Attempt.make_framed r depth t p.cache).grown.mono
  new := (Attempt.made_known h ht made).2
  pending := by
    have hnone := (Attempt.made_known h ht made).1
    simp only [SchemaCache.unknown] at hnone ⊢
    rw [OrderedSet.filter_addAll, hnone]
    rfl

theorem finish (hq : known.has q = true) : CatchesUp known p (p.finish q) where
  mono _ hk := has_finish.2 (Or.inr hk)
  new k hk := by
    rcases has_finish.1 hk with rfl | hk
    · exact Or.inr hq
    · exact Or.inl hk
  pending := rfl

end CatchesUp

theorem Declares.catches_up {depth : Nat} {d : ClassDecl} {x : Declaration}
    (h : known.Settled r) (hq : known.has q = true) (hd : r.get? q = some d)
    (hmem : x ∈ d.declarations) (hx : Declares r (Attempt.make r depth) chain q p x p') :
    CatchesUp known p p' := by
  cases hx with
  | @field name definition type named parsed =>
    refine .field fun u hu => h.refersTo hq (Or.inr ?_)
    exact ⟨d, name, definition, type, hd, hmem, parsed, hu⟩
  | cached => exact .of_eq rfl rfl
  | @nested reference _ _ _ resolved _ _ made =>
    refine .nested h (h.refersTo hq (Or.inl (Or.inr ?_))) made _
    exact ⟨d, reference, hd, hmem, resolved⟩

theorem descend_known {depth : Nat} (h : known.Settled r) (ha : r.Ancestry cls (done ++ q :: rest))
    (unlocked : ∀ c ∈ done ++ q :: rest, cold.isLocked c = false) (hq : known.has q = true)
    (free : ∀ k, known.has k = true → cold.isLocked k = false)
    (hp : Framed cold (done ++ q :: rest) done p) :
    Ends (fun p' => Framed cold (done ++ q :: rest) (done ++ [q]) p' ∧ CatchesUp known p p')
      (fun s => s.stop = .tooDeep)
      (descend r (Attempt.make r depth) (done ++ q :: rest) p q) := by
  have frame := walk_framed (r := r) (Attempt.make_framed r depth) ha.nodup unlocked
  cases hfound : p.cache.get? q with
  | some table =>
    rw [descend_cached hfound]
    exact ⟨frame.cached done q rest p table rfl hp hfound, .of_eq rfl rfl⟩
  | none =>
    have hground := h.grounded hq
    obtain ⟨d, hd⟩ := Registry.contains_iff.1 hground.sound.registered
    rw [descend_declared hfound hd]
    have hfree : ∀ u, ReflTransGen r.DependsOn q u → cold.isLocked u = false := fun u hu =>
      free u (h.reaches hq (Registry.RefersTo.of_dependsOn hu))
    refine (foldlM_ends (fun _ p' => (Framed cold (done ++ q :: rest) done p' ∧ q ∈ p'.held) ∧
      CatchesUp known p p') ⟨frame.enter done q rest p rfl hp hfound, .of_eq rfl rfl⟩ ?_).map ?_
    · intro ds x more p' hds ⟨hp', hcatch⟩
      have hmem : x ∈ d.declarations := by simp [hds]
      refine (declare_ends p' x).imp (fun p'' hx => ⟨?_, ?_⟩) fun s hx => ?_
      · exact frame.declares done q rest d ds x more p' p'' rfl hd hds hp' hx
      · exact hcatch.trans (hx.catches_up h hq hd hmem)
      · exact hx.tooDeep_of_grounded (fun t c ht hc => Attempt.make_of_grounded ht hc) hp'.1 ha
          hground hd hmem hfree
    · intro p' ⟨hp', hcatch⟩
      exact ⟨frame.finish done q rest d p' rfl hd hp', hcatch.trans (.finish hq)⟩

theorem unknown_behind (h : known.Settled r) (ha : r.Ancestry cls (done ++ q :: rest))
    (hq : known.has q = false) {u : ClassPath} (hu : u ∈ q :: rest) : known.has u = false := by
  rcases List.mem_cons.1 hu with rfl | hu
  · exact hq
  · refine Bool.eq_false_iff.2 fun hk => ?_
    have := h.reaches hk (Registry.RefersTo.of_dependsOn
      (Registry.DependsOn.of_descent (ha.cut.2 u hu)).to_reflTransGen)
    simp [hq] at this

theorem LockStep.parallel (h : known.Settled r) (ha : r.Ancestry cls (done ++ q :: rest))
    (hq : known.has q = false) (start : SchemaCache.Parallel known cold warm)
    (hp : Framed cold (done ++ q :: rest) done p) (hw : Framed warm (done ++ q :: rest) done w)
    (hl : LockStep known p w) : SchemaCache.Parallel known p.cache w.cache where
  ahead := hl.ahead
  locks k := by
    have hbase : k ∈ cold.locks ↔ k ∈ warm.locks := by
      rw [← SchemaCache.isLocked_iff, ← SchemaCache.isLocked_iff, start.locks k]
    have hchain : k ∈ done ++ q :: rest → w.cache.has k = p.cache.has k := by
      intro hk
      rcases List.mem_append.1 hk with hk | hk
      · rw [hp.visited k hk, hw.visited k hk]
      · exact hl.ahead.has_eq (unknown_behind h ha hq hk)
    rw [Bool.eq_iff_iff, hp.isLocked_iff, hw.isLocked_iff, hbase]
    refine or_congr_right (and_congr_right fun hk => ?_)
    rw [hchain hk]
  free k hk := by
    refine Bool.eq_false_iff.2 fun hlocked => ?_
    rcases hp.isLocked_iff.1 hlocked with hlocked | ⟨hmem, habsent⟩
    · exact SchemaCache.isLocked_eq_false_iff.1 (start.free k hk) hlocked
    · rcases List.mem_append.1 hmem with hmem | hmem
      · simp [hp.visited k hmem] at habsent
      · simp [unknown_behind h ha hq hmem] at hk

theorem LockStep.await (hl : LockStep known p w) (type : FieldType) :
    w.await type = known.unknown (p.await type) := by
  have hpending := hl.pending
  simp only [SchemaCache.unknown, Progress.await] at hpending ⊢
  split
  · exact hpending
  · next u _ =>
    cases hk : known.has u with
    | true =>
      have hw : w.cache.has u = true := (hl.ahead u).2 (Or.inr hk)
      cases hu : p.cache.has u <;> simp [hw, hpending, OrderedSet.filter_add, hk]
    | false =>
      rw [hl.ahead.has_eq hk]
      cases hu : p.cache.has u <;> simp [hpending, OrderedSet.filter_add, hk]

section

variable {m n : Nat}

theorem nested_agree {t : ClassPath} {reference : String}
    (resolved : r.resolve reference q = some t) (pOpen : p.Open chain q t)
    (wOpen : w.Open chain q t) (hp : p.cache.has t = false) (hw : w.cache.has t = false)
    (made : (Attempt.make r m t p.cache).Agrees known (Attempt.make r n t w.cache))
    (hl : LockStep known p w) :
    Agree Halt.stop (LockStep known)
      (p.declare r (Attempt.make r m) chain q (.imports reference))
      (w.declare r (Attempt.make r n) chain q (.imports reference)) := by
  rw [declare_nested resolved pOpen hp, declare_nested resolved wOpen hw]
  unfold Attempt.Agrees at made
  cases hx : (Attempt.make r m t p.cache).result with
  | error stop =>
    rw [hx] at made
    cases stop with
    | tooDeep => exact .leftDeep rfl
    | fault e =>
      cases hy : (Attempt.make r n t w.cache).result with
      | error stop' =>
        rw [hy] at made
        cases made with
        | fault left right => cases left; cases right; exact .fault rfl rfl
        | leftDeep h => cases h
        | rightDeep h => cases h; exact .rightDeep rfl
      | ok pending' =>
        rw [hy] at made
        cases made with
        | leftDeep h => cases h
  | ok pending =>
    rw [hx] at made
    cases hy : (Attempt.make r n t w.cache).result with
    | error stop' =>
      rw [hy] at made
      cases made with
      | rightDeep h => cases h; exact .rightDeep rfl
    | ok pending' =>
      rw [hy] at made
      cases made with
      | ok made =>
        obtain ⟨hahead, hpending⟩ := made
        obtain ⟨table, hp'⟩ := SchemaCache.has_iff.1 (Attempt.has_of_make hx)
        obtain ⟨table', hw'⟩ := SchemaCache.has_iff.1 (Attempt.has_of_make hy)
        simp only [hp', hw']
        refine .ok ⟨hahead, ?_⟩
        simp only [SchemaCache.unknown, OrderedSet.filter_addAll, hl.pending, hpending]

theorem known_agree {t : ClassPath} {reference : String} {table : FieldTable}
    (h : known.Settled r) (resolved : r.resolve reference q = some t)
    (pOpen : p.Open chain q t) (wOpen : w.Open chain q t) (found : w.cache.get? t = some table)
    (free : ∀ k, known.has k = true → p.cache.isLocked k = false) (hl : LockStep known p w) :
    Agree Halt.stop (LockStep known)
      (p.declare r (Attempt.make r m) chain q (.imports reference))
      (w.declare r (Attempt.make r n) chain q (.imports reference)) := by
  rw [declare_cached resolved wOpen found]
  cases hp : p.cache.has t with
  | true =>
    obtain ⟨table', hp⟩ := SchemaCache.has_iff.1 hp
    rw [declare_cached resolved pOpen hp]
    exact .ok ⟨hl.ahead, hl.pending⟩
  | false =>
    have ht : known.has t = true :=
      ((hl.ahead t).1 (SchemaCache.has_iff.2 ⟨table, found⟩)).resolve_left (by simp [hp])
    rw [declare_nested resolved pOpen hp]
    cases made : (Attempt.make r m t p.cache).result with
    | error stop =>
      obtain rfl := Attempt.tooDeep_of_known h ht free made
      exact .leftDeep rfl
    | ok pending =>
      obtain ⟨table', hp'⟩ := SchemaCache.has_iff.1 (Attempt.has_of_make made)
      have hstep := hl.catch_up (.nested h ht made table')
      simp only [hp']
      exact .ok ⟨hstep.ahead, hstep.pending⟩

end

/-- The two works stand at the same place of an ancestry, after the classes in `done`. -/
structure Abreast (known cold warm : SchemaCache) (chain done : List ClassPath) (p w : Progress) :
    Prop where
  left : Framed cold chain done p
  right : Framed warm chain done w
  step : LockStep known p w

/-- The two works also stand side by side inside the class `q`. -/
structure AbreastIn (known cold warm : SchemaCache) (chain done : List ClassPath) (q : ClassPath)
    (p w : Progress) : Prop where
  left : Framed cold chain done p ∧ q ∈ p.held
  right : Framed warm chain done w ∧ q ∈ w.held
  step : LockStep known p w

section

variable {m n : Nat} (h : known.Settled r)
variable (nested : ∀ t c c', SchemaCache.Parallel known c c' →
  (Attempt.make r m t c).Agrees known (Attempt.make r n t c'))

include h nested

theorem declare_agree (hc : SchemaCache.Parallel known p.cache w.cache) (hl : LockStep known p w)
    (x : Declaration) :
    Agree Halt.stop (LockStep known) (p.declare r (Attempt.make r m) chain q x)
      (w.declare r (Attempt.make r n) chain q x) := by
  cases x with
  | field name definition =>
    by_cases named : name = ""
    · subst named
      rw [declare_unnamed, declare_unnamed]
      exact .fault rfl rfl
    · cases parsed : FieldType.parse r q definition with
      | error e =>
        rw [declare_unparsed named parsed, declare_unparsed named parsed]
        exact .fault rfl rfl
      | ok type =>
        rw [declare_field named parsed, declare_field named parsed]
        exact .ok ⟨hl.ahead, hl.await type⟩
  | imports reference =>
    cases resolved : r.resolve reference q with
    | none =>
      rw [declare_unresolved resolved, declare_unresolved resolved]
      exact .fault rfl rfl
    | some t =>
      by_cases closed : t = q ∨ t ∈ chain ∨ p.cache.isLocked t = true
      · rw [declare_circular resolved closed, declare_circular resolved (hc.locks t ▸ closed)]
        exact .fault rfl rfl
      · have pOpen := open_of_not_closed closed
        have wOpen : w.Open chain q t := open_of_not_closed (hc.locks t ▸ closed)
        cases hw : w.cache.get? t with
        | some table => exact known_agree h resolved pOpen wOpen hw hc.free hl
        | none =>
          have hw := SchemaCache.has_eq_false_iff.2 hw
          have hp : p.cache.has t = false :=
            Bool.eq_false_iff.2 fun hp => by simpa [hw] using (hl.ahead t).2 (Or.inl hp)
          exact nested_agree resolved pOpen wOpen hp hw (nested t p.cache w.cache hc) hl

theorem declarations_agree {d : ClassDecl} (start : SchemaCache.Parallel known cold warm)
    (ha : r.Ancestry cls (done ++ q :: rest)) (hq : known.has q = false)
    (hb : AbreastIn known cold warm (done ++ q :: rest) done q p w) :
    Agree Halt.stop (AbreastIn known cold warm (done ++ q :: rest) done q)
      (d.declarations.foldlM (declare r (Attempt.make r m) (done ++ q :: rest) q) p)
      (d.declarations.foldlM (declare r (Attempt.make r n) (done ++ q :: rest) q) w) := by
  refine foldlM_agree (fun _ => AbreastIn known cold warm (done ++ q :: rest) done q) hb ?_
  intro ds x more p w hds hb
  have hparallel := hb.step.parallel h ha hq start hb.left.1 hb.right.1
  have hagree : Agree Halt.stop (LockStep known)
      (p.declare r (Attempt.make r m) (done ++ q :: rest) q x)
      (w.declare r (Attempt.make r n) (done ++ q :: rest) q x) :=
    declare_agree h nested hparallel hb.step x
  have hleft : Ends (fun p' => Framed cold (done ++ q :: rest) done p' ∧ q ∈ p'.held)
      (fun _ => True) (p.declare r (Attempt.make r m) (done ++ q :: rest) q x) := by
    refine (declare_ends p x).imp (fun p' hx => ?_) fun _ _ => trivial
    obtain ⟨hp', hheld⟩ := hx.framed (Attempt.make_framed r m) hb.left.1
    exact ⟨hp', hheld ▸ hb.left.2⟩
  have hright : Ends (fun w' => Framed warm (done ++ q :: rest) done w' ∧ q ∈ w'.held)
      (fun _ => True) (w.declare r (Attempt.make r n) (done ++ q :: rest) q x) := by
    refine (declare_ends w x).imp (fun w' hx => ?_) fun _ _ => trivial
    obtain ⟨hw', hheld⟩ := hx.framed (Attempt.make_framed r n) hb.right.1
    exact ⟨hw', hheld ▸ hb.right.2⟩
  exact (hagree.and_ends hleft hright).imp fun p' w' ⟨hp', hw', hl⟩ => ⟨hp', hw', hl⟩

theorem descend_agree (start : SchemaCache.Parallel known cold warm)
    (ha : r.Ancestry cls (done ++ q :: rest))
    (unlocked : ∀ c ∈ done ++ q :: rest, cold.isLocked c = false)
    (hb : Abreast known cold warm (done ++ q :: rest) done p w) :
    Agree Halt.stop (Abreast known cold warm (done ++ q :: rest) (done ++ [q]))
      (descend r (Attempt.make r m) (done ++ q :: rest) p q)
      (descend r (Attempt.make r n) (done ++ q :: rest) w q) := by
  have unlocked' : ∀ c ∈ done ++ q :: rest, warm.isLocked c = false := fun c hc => by
    rw [← start.locks c]; exact unlocked c hc
  have frame := walk_framed (r := r) (Attempt.make_framed r m) ha.nodup unlocked
  have frame' := walk_framed (r := r) (Attempt.make_framed r n) ha.nodup unlocked'
  cases hw : w.cache.get? q with
  | some table =>
    rw [descend_cached hw]
    have hw' := frame'.cached done q rest w table rfl hb.right hw
    cases hp : p.cache.get? q with
    | some table' =>
      rw [descend_cached hp]
      exact .ok ⟨frame.cached done q rest p table' rfl hb.left hp, hw', hb.step.ahead,
        hb.step.pending⟩
    | none =>
      have hp := SchemaCache.has_eq_false_iff.2 hp
      have hq : known.has q = true :=
        ((hb.step.ahead q).1 (SchemaCache.has_iff.2 ⟨table, hw⟩)).resolve_left (by simp [hp])
      refine .of_ends (descend_known h ha unlocked hq start.free hb.left) ?_
      intro p' ⟨hp', hcatch⟩
      have hstep := hb.step.catch_up hcatch
      exact ⟨hp', hw', hstep.ahead, hstep.pending⟩
  | none =>
    have hnone : ¬ (p.cache.has q = true ∨ known.has q = true) := by
      rw [← hb.step.ahead q, SchemaCache.has_eq_false_iff.2 hw]
      simp
    simp only [not_or, Bool.not_eq_true] at hnone
    have hp := SchemaCache.has_eq_false_iff.1 hnone.1
    obtain ⟨d, hd⟩ := Registry.contains_iff.1 (ha.contains q (by simp))
    rw [descend_declared hp hd, descend_declared hw hd]
    have hin : AbreastIn known cold warm (done ++ q :: rest) done q p w :=
      ⟨frame.enter done q rest p rfl hb.left hp, frame'.enter done q rest w rfl hb.right hw,
        hb.step⟩
    refine (declarations_agree h nested start ha hnone.2 hin).map fun p w hb => ?_
    refine ⟨frame.finish done q rest d p rfl hd hb.left,
      frame'.finish done q rest d w rfl hd hb.right, fun k => ?_, hb.step.pending⟩
    rw [has_finish, has_finish, hb.step.ahead k, or_assoc]

theorem replay_agree (start : SchemaCache.Parallel known cold warm) :
    Agree Halt.stop (LockStep known) (replay r (Attempt.make r m) cls cold)
      (replay r (Attempt.make r n) cls warm) := by
  cases hchain : r.ancestorChain cls with
  | error e =>
    rw [replay_refused hchain, replay_refused hchain]
    exact .fault rfl rfl
  | ok chain =>
    have ha := Registry.ancestorChain_eq_ok_iff.1 hchain
    have hlocks : cold.isLocked = warm.isLocked := funext start.locks
    rw [replay_of_ancestry cold ha, replay_of_ancestry warm ha, ← hlocks]
    cases hfind : chain.find? cold.isLocked with
    | some ancestor => exact .fault rfl rfl
    | none =>
      have unlocked : ∀ c ∈ chain, cold.isLocked c = false := by
        simpa using List.find?_eq_none.1 hfind
      have unlocked' : ∀ c ∈ chain, warm.isLocked c = false := fun c hc => by
        rw [← hlocks]; exact unlocked c hc
      have hopening : Abreast known cold warm chain [] (opening chain cold)
          (opening chain warm) := by
        refine ⟨framed_opening ha.nodup unlocked, framed_opening ha.nodup unlocked', ?_, rfl⟩
        rw [opening_cache ha.nodup unlocked, opening_cache ha.nodup unlocked']
        exact start.ahead
      have hfold : Agree Halt.stop (Abreast known cold warm chain chain)
          (chain.foldlM (descend r (Attempt.make r m) chain) (opening chain cold))
          (chain.foldlM (descend r (Attempt.make r n) chain) (opening chain warm)) := by
        refine foldlM_agree _ hopening fun done q rest p w hl hb => ?_
        subst hl
        exact descend_agree h nested start ha unlocked hb
      generalize chain.foldlM (descend r (Attempt.make r m) chain) _ = x at hfold ⊢
      generalize chain.foldlM (descend r (Attempt.make r n) chain) _ = y at hfold ⊢
      cases hfold with
      | ok hb =>
        simp only [hb.left.visited cls ha.mem_self, hb.right.visited cls ha.mem_self, if_true]
        exact .ok hb.step
      | fault left right => exact .fault left right
      | leftDeep h => exact .leftDeep h
      | rightDeep h => exact .rightDeep h

end

end Progress

namespace Attempt

/-- Work on a class agrees with work that begins with more tables. -/
theorem make_agrees (h : known.Settled r) (m n : Nat) (cls : ClassPath)
    (start : SchemaCache.Parallel known cold warm) :
    (make r m cls cold).Agrees known (make r n cls warm) := by
  induction m generalizing n cls cold warm with
  | zero => exact .leftDeep rfl
  | succ m ih =>
    cases n with
    | zero => exact .rightDeep rfl
    | succ n =>
      unfold Agrees
      cases hk : known.has cls with
      | true =>
        rw [make_cached ((start.ahead cls).2 (Or.inr hk))]
        have hframed := make_framed r (m + 1) cls cold
        cases made : (make r (m + 1) cls cold).result with
        | error stop =>
          obtain rfl := tooDeep_of_known h hk start.free made
          exact .leftDeep rfl
        | ok pending =>
          obtain ⟨hnone, hnew⟩ := made_known h hk made
          exact .ok ⟨start.ahead.catch_up (fun k => hframed.grown.mono) hnew, hnone.symm⟩
      | false =>
        have hwarm := start.ahead.has_eq hk
        cases hc : cold.has cls with
        | true =>
          rw [make_cached hc, make_cached (hwarm.trans hc)]
          exact .ok ⟨start.ahead, rfl⟩
        | false =>
          rw [make_absent hc, make_absent (hwarm.trans hc)]
          have hreplay : Agree Halt.stop (Progress.LockStep known)
              (Progress.replay r (make r m) cls cold) (Progress.replay r (make r n) cls warm) :=
            Progress.replay_agree h (fun t _ _ => ih n t) start
          generalize Progress.replay r (make r m) cls cold = x at hreplay ⊢
          generalize Progress.replay r (make r n) cls warm = y at hreplay ⊢
          cases hreplay with
          | ok hl => exact .ok ⟨hl.ahead, hl.pending⟩
          | fault left right => exact .fault left right
          | leftDeep hs => exact .leftDeep hs
          | rightDeep hs => exact .rightDeep hs

end Attempt

end LazyBinding
