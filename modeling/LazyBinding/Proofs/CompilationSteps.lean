import LazyBinding.Compilation
import LazyBinding.Proofs.AncestorWalk

/-!
# Steps of a compilation

What the work on a class can do at each of its steps, and the rule by which a property of single
steps becomes one of the whole replay of an ancestry. Later proofs use these statements and leave
the definitions of `Compilation` closed.
-/
namespace LazyBinding

/-- A computation that ends well ends in `ok`, and one that fails fails in `err`. -/
def Ends {ε α : Type} (ok : α → Prop) (err : ε → Prop) : Except ε α → Prop
  | .ok a => ok a
  | .error e => err e

theorem Ends.imp {ε α : Type} {ok ok' : α → Prop} {err err' : ε → Prop} {x : Except ε α}
    (h : Ends ok err x) (hok : ∀ a, ok a → ok' a) (herr : ∀ e, err e → err' e) :
    Ends ok' err' x := by
  cases x with
  | ok a => exact hok a h
  | error e => exact herr e h

theorem Ends.map {ε α β : Type} {ok : α → Prop} {ok' : β → Prop} {err : ε → Prop}
    {x : Except ε α} {f : α → β} (h : Ends ok err x) (hok : ∀ a, ok a → ok' (f a)) :
    Ends ok' err (x.map f) := by
  cases x with
  | ok a => exact hok a h
  | error e => exact h

theorem foldlM_ends {ε α σ : Type} {f : σ → α → Except ε σ} {err : ε → Prop}
    (inv : List α → σ → Prop) {l : List α} {s : σ} (start : inv [] s)
    (step : ∀ done x rest s, l = done ++ x :: rest → inv done s →
      Ends (inv (done ++ [x])) err (f s x)) :
    Ends (inv l) err (l.foldlM f s) := by
  have all : ∀ rest done s, l = done ++ rest → inv done s →
      Ends (inv l) err (rest.foldlM f s) := by
    intro rest
    induction rest with
    | nil =>
      intro done s hl hs
      rw [List.append_nil] at hl
      exact hl ▸ hs
    | cons x rest ih =>
      intro done s hl hs
      have hx := step done x rest s hl hs
      rw [List.foldlM_cons]
      cases hf : f s x with
      | error e => rw [hf] at hx; exact hx
      | ok t =>
        rw [hf] at hx
        exact ih (done ++ [x]) t (by simpa using hl) hx
  exact all l [] s rfl start

namespace Progress

variable {r : Registry} {nested : ClassPath → SchemaCache → Attempt}
variable {chain : List ClassPath} {owner : ClassPath}

/-- Notes the class of an object type unless it is cached. -/
def await (p : Progress) (type : FieldType) : OrderedSet ClassPath :=
  match type.class? with
  | none => p.pending
  | some target => if p.cache.has target then p.pending else OrderedSet.add p.pending target

/-- Takes in the cache that nested work leaves. -/
def adopt (p : Progress) (a : Attempt) : Progress :=
  { p with cache := a.cache, compiled := OrderedSet.addAll p.compiled a.compiled }

/-- An import of `target` closes no cycle that the locks show. -/
structure Open (p : Progress) (chain : List ClassPath) (owner target : ClassPath) : Prop where
  notOwner : target ≠ owner
  notInChain : target ∉ chain
  notLocked : p.cache.isLocked target = false

/-- What a declaration can do to the work on the class `owner`. -/
inductive Declares (r : Registry) (nested : ClassPath → SchemaCache → Attempt)
    (chain : List ClassPath) (owner : ClassPath) (p : Progress) :
    Declaration → Progress → Prop where
  | field {name definition type} (named : name ≠ "")
      (parsed : FieldType.parse r owner definition = .ok type) :
      Declares r nested chain owner p (.field name definition)
        { p with pending := p.await type, working := Dict.put p.working name type }
  | cached {reference target table} (resolved : r.resolve reference owner = some target)
      (isOpen : p.Open chain owner target) (found : p.cache.get? target = some table) :
      Declares r nested chain owner p (.imports reference)
        { p with working := Dict.putAll p.working table }
  | nested {reference target table pending} (resolved : r.resolve reference owner = some target)
      (isOpen : p.Open chain owner target) (absent : p.cache.has target = false)
      (made : (nested target p.cache).result = .ok pending)
      (found : (nested target p.cache).cache.get? target = some table) :
      Declares r nested chain owner p (.imports reference)
        { p.adopt (nested target p.cache) with
          pending := OrderedSet.addAll p.pending pending
          working := Dict.putAll p.working table }

/-- How a declaration can end the work on the class `owner`. -/
inductive Fails (r : Registry) (nested : ClassPath → SchemaCache → Attempt)
    (chain : List ClassPath) (owner : ClassPath) (p : Progress) : Declaration → Halt → Prop where
  | unnamed {definition} :
      Fails r nested chain owner p (.field "" definition)
        ⟨.fault (.badSchema owner .emptyFieldName), p⟩
  | unparsed {name definition e} (named : name ≠ "")
      (parsed : FieldType.parse r owner definition = .error e) :
      Fails r nested chain owner p (.field name definition)
        ⟨.fault (.badDefinition owner name definition e.fault), p⟩
  | unresolved {reference} (resolved : r.resolve reference owner = none) :
      Fails r nested chain owner p (.imports reference)
        ⟨.fault (.badSchema owner (.unknownImport reference)), p⟩
  | circular {reference target} (resolved : r.resolve reference owner = some target)
      (closed : target = owner ∨ target ∈ chain ∨ p.cache.isLocked target = true) :
      Fails r nested chain owner p (.imports reference)
        ⟨.fault (.circularReference owner target), p⟩
  | imported {reference target e} (resolved : r.resolve reference owner = some target)
      (isOpen : p.Open chain owner target) (absent : p.cache.has target = false)
      (made : (nested target p.cache).result = .error (.fault e)) :
      Fails r nested chain owner p (.imports reference)
        ⟨.fault (.importFailed owner target e), p.adopt (nested target p.cache)⟩
  | tooDeep {reference target} (resolved : r.resolve reference owner = some target)
      (isOpen : p.Open chain owner target) (absent : p.cache.has target = false)
      (made : (nested target p.cache).result = .error .tooDeep) :
      Fails r nested chain owner p (.imports reference)
        ⟨.tooDeep, p.adopt (nested target p.cache)⟩
  | missing {reference target pending} (resolved : r.resolve reference owner = some target)
      (isOpen : p.Open chain owner target) (absent : p.cache.has target = false)
      (made : (nested target p.cache).result = .ok pending)
      (found : (nested target p.cache).cache.get? target = none) :
      Fails r nested chain owner p (.imports reference)
        ⟨.fault (.badSchema target .missingAfterImport),
          { p.adopt (nested target p.cache) with
            pending := OrderedSet.addAll p.pending pending }⟩

section

variable {p : Progress} {name definition reference : String} {target : ClassPath}

theorem declare_unnamed :
    p.declare r nested chain owner (.field "" definition) =
      .error ⟨.fault (.badSchema owner .emptyFieldName), p⟩ := rfl

theorem declare_unparsed {e : DefinitionError} (named : name ≠ "")
    (parsed : FieldType.parse r owner definition = .error e) :
    p.declare r nested chain owner (.field name definition) =
      .error ⟨.fault (.badDefinition owner name definition e.fault), p⟩ := by
  simp [declare, declareField, named, parsed, halt]

theorem declare_field {type : FieldType} (named : name ≠ "")
    (parsed : FieldType.parse r owner definition = .ok type) :
    p.declare r nested chain owner (.field name definition) =
      .ok { p with pending := p.await type, working := Dict.put p.working name type } := by
  simp only [declare, declareField, named, parsed, if_false]
  rfl

theorem declare_unresolved (resolved : r.resolve reference owner = none) :
    p.declare r nested chain owner (.imports reference) =
      .error ⟨.fault (.badSchema owner (.unknownImport reference)), p⟩ := by
  simp [declare, importClass, resolved, halt]

theorem declare_circular (resolved : r.resolve reference owner = some target)
    (closed : target = owner ∨ target ∈ chain ∨ p.cache.isLocked target = true) :
    p.declare r nested chain owner (.imports reference) =
      .error ⟨.fault (.circularReference owner target), p⟩ := by
  simp [declare, importClass, resolved, closed, halt]

theorem open_of_not_closed
    (closed : ¬ (target = owner ∨ target ∈ chain ∨ p.cache.isLocked target = true)) :
    p.Open chain owner target := by
  simp only [not_or, Bool.not_eq_true] at closed
  exact ⟨closed.1, closed.2.1, closed.2.2⟩

theorem declare_cached {table : FieldTable} (resolved : r.resolve reference owner = some target)
    (isOpen : p.Open chain owner target) (found : p.cache.get? target = some table) :
    p.declare r nested chain owner (.imports reference) =
      .ok { p with working := Dict.putAll p.working table } := by
  have hhas : p.cache.has target = true := Option.isSome_iff_exists.2 ⟨table, found⟩
  simp [declare, importClass, resolved, isOpen.notOwner, isOpen.notInChain, isOpen.notLocked, hhas,
    found]

theorem declare_nested (resolved : r.resolve reference owner = some target)
    (isOpen : p.Open chain owner target) (absent : p.cache.has target = false) :
    p.declare r nested chain owner (.imports reference) =
      match (nested target p.cache).result with
      | .error (.fault e) =>
        .error ⟨.fault (.importFailed owner target e), p.adopt (nested target p.cache)⟩
      | .error .tooDeep => .error ⟨.tooDeep, p.adopt (nested target p.cache)⟩
      | .ok pending =>
        match (nested target p.cache).cache.get? target with
        | none =>
          .error ⟨.fault (.badSchema target .missingAfterImport),
            { p.adopt (nested target p.cache) with
              pending := OrderedSet.addAll p.pending pending }⟩
        | some table =>
          .ok { p.adopt (nested target p.cache) with
            pending := OrderedSet.addAll p.pending pending
            working := Dict.putAll p.working table } := by
  simp only [declare, importClass, resolved, isOpen.notOwner, isOpen.notInChain, isOpen.notLocked,
    absent, absorb, or_self, Bool.false_eq_true, if_false]
  cases (nested target p.cache).result with
  | error stop => cases stop <;> rfl
  | ok pending =>
    cases found : (nested target p.cache).cache.get? target <;> simp only [found] <;> rfl

end

theorem declare_ends (p : Progress) (x : Declaration) :
    Ends (Declares r nested chain owner p x) (Fails r nested chain owner p x)
      (p.declare r nested chain owner x) := by
  cases x with
  | field name definition =>
    by_cases named : name = ""
    · subst named
      rw [declare_unnamed]
      exact .unnamed
    · cases parsed : FieldType.parse r owner definition with
      | error e => rw [declare_unparsed named parsed]; exact .unparsed named parsed
      | ok type => rw [declare_field named parsed]; exact .field named parsed
  | imports reference =>
    cases resolved : r.resolve reference owner with
    | none => rw [declare_unresolved resolved]; exact .unresolved resolved
    | some target =>
      by_cases closed : target = owner ∨ target ∈ chain ∨ p.cache.isLocked target = true
      · rw [declare_circular resolved closed]; exact .circular resolved closed
      · have isOpen := open_of_not_closed closed
        cases hfound : p.cache.get? target with
        | some table =>
          rw [declare_cached resolved isOpen hfound]; exact .cached resolved isOpen hfound
        | none =>
          have absent : p.cache.has target = false := by
            simpa [SchemaCache.has, SchemaCache.get?, Dict.has] using hfound
          rw [declare_nested resolved isOpen absent]
          cases made : (nested target p.cache).result with
          | error stop =>
            cases stop with
            | fault e => exact .imported resolved isOpen absent made
            | tooDeep => exact .tooDeep resolved isOpen absent made
          | ok pending =>
            dsimp only
            split
            · next found => exact .missing resolved isOpen absent made found
            · next table found => exact .nested resolved isOpen absent made found

/-- The state in which the replay of an ancestry begins: what is not cached is locked. -/
def opening (chain : List ClassPath) (cache : SchemaCache) : Progress :=
  let fresh := chain.filter fun c => !cache.has c
  ⟨cache.lockAll fresh, [], fresh, [], []⟩

/-- Work on a class that has not begun. -/
def untouched (cache : SchemaCache) : Progress := ⟨cache, [], [], [], []⟩

theorem descend_cached {p : Progress} {cls : ClassPath} {table : FieldTable}
    (found : p.cache.get? cls = some table) :
    descend r nested chain p cls = .ok { p with working := table } := by
  simp [descend, found]

theorem descend_declared {p : Progress} {cls : ClassPath} {d : ClassDecl}
    (absent : p.cache.get? cls = none) (hd : r.get? cls = some d) :
    descend r nested chain p cls =
      (d.declarations.foldlM (declare r nested chain cls) p).map fun p => p.finish cls := by
  simp only [descend, absent, hd]
  cases d.declarations.foldlM (declare r nested chain cls) p <;> rfl

theorem replay_refused {cls : ClassPath} {cache : SchemaCache} {e : SchemaError}
    (h : r.ancestorChain cls = .error e) :
    replay r nested cls cache = .error ⟨.fault e, untouched cache⟩ := by
  simp [replay, h, halt, untouched]

theorem replay_of_ancestry {cls : ClassPath} (cache : SchemaCache) (h : r.Ancestry cls chain) :
    replay r nested cls cache =
      match chain.find? cache.isLocked with
      | some ancestor => .error ⟨.fault (.circularReference ancestor cls), untouched cache⟩
      | none =>
        match chain.foldlM (descend r nested chain) (opening chain cache) with
        | .error h => .error h
        | .ok p =>
          if p.cache.has cls then .ok p
          else .error ⟨.fault (.badSchema cls .missingAfterCompilation), p⟩ := by
  simp only [replay, Registry.ancestorChain_eq_ok_iff.2 h]
  rfl

theorem replay_ends {ok : Progress → Prop} {err : Halt → Prop} {cls : ClassPath}
    {cache : SchemaCache}
    (refused : ∀ e, r.ancestorChain cls = .error e → err ⟨.fault e, untouched cache⟩)
    (locked : ∀ chain ancestor, r.Ancestry cls chain →
      chain.find? cache.isLocked = some ancestor →
      err ⟨.fault (.circularReference ancestor cls), untouched cache⟩)
    (opened : ∀ chain, r.Ancestry cls chain → (∀ c ∈ chain, cache.isLocked c = false) →
      Ends (fun p => p.cache.has cls = true ∧ ok p) err
        (chain.foldlM (descend r nested chain) (opening chain cache))) :
    Ends ok err (replay r nested cls cache) := by
  cases hchain : r.ancestorChain cls with
  | error e => rw [replay_refused hchain]; exact refused e hchain
  | ok chain =>
    have ha := Registry.ancestorChain_eq_ok_iff.1 hchain
    rw [replay_of_ancestry cache ha]
    split
    · next ancestor hl => exact locked chain ancestor ha hl
    · next hl =>
      have hfree : ∀ c ∈ chain, cache.isLocked c = false := by
        simpa using List.find?_eq_none.1 hl
      have h := opened chain ha hfree
      split
      · next hf => rw [hf] at h; exact h
      · next hf =>
        rw [hf] at h
        rw [if_pos h.1]
        exact h.2

/-- Properties that the replay of an ancestry keeps: `inv` between two classes, when those in `done`
have been visited, `sub` inside the class `q` after some of its declarations, and `err` of what is
left when the work stops. -/
structure Walk (r : Registry) (nested : ClassPath → SchemaCache → Attempt)
    (chain : List ClassPath) (inv : List ClassPath → Progress → Prop)
    (sub : List ClassPath → ClassPath → List Declaration → Progress → Prop)
    (err : Halt → Prop) : Prop where
  cached : ∀ done q rest p table, chain = done ++ q :: rest → inv done p →
    p.cache.get? q = some table → inv (done ++ [q]) { p with working := table }
  enter : ∀ done q rest p, chain = done ++ q :: rest → inv done p →
    p.cache.get? q = none → sub done q [] p
  declares : ∀ done q rest d ds x more p p', chain = done ++ q :: rest → r.get? q = some d →
    d.declarations = ds ++ x :: more → sub done q ds p → Declares r nested chain q p x p' →
    sub done q (ds ++ [x]) p'
  fails : ∀ done q rest d ds x more p h, chain = done ++ q :: rest → r.get? q = some d →
    d.declarations = ds ++ x :: more → sub done q ds p → Fails r nested chain q p x h → err h
  finish : ∀ done q rest d p, chain = done ++ q :: rest → r.get? q = some d →
    sub done q d.declarations p → inv (done ++ [q]) (p.finish q)

/-- The same walk, with something else to say of what a stop leaves. -/
theorem Walk.failing {inv : List ClassPath → Progress → Prop}
    {sub : List ClassPath → ClassPath → List Declaration → Progress → Prop}
    {err : Halt → Prop} (w : Walk r nested chain inv sub err) (err' : Halt → Prop)
    (fails : ∀ done q rest d ds x more p h, chain = done ++ q :: rest → r.get? q = some d →
      d.declarations = ds ++ x :: more → sub done q ds p → Fails r nested chain q p x h → err' h) :
    Walk r nested chain inv sub err' :=
  ⟨w.cached, w.enter, w.declares, fails, w.finish⟩

theorem Walk.ends {inv : List ClassPath → Progress → Prop}
    {sub : List ClassPath → ClassPath → List Declaration → Progress → Prop} {err : Halt → Prop}
    (w : Walk r nested chain inv sub err) (registered : ∀ c ∈ chain, r.contains c = true)
    {p : Progress} (start : inv [] p) :
    Ends (inv chain) err (chain.foldlM (descend r nested chain) p) := by
  refine foldlM_ends inv start fun done q rest p hchain hp => ?_
  cases hfound : p.cache.get? q with
  | some table =>
    rw [descend_cached hfound]
    exact w.cached done q rest p table hchain hp hfound
  | none =>
    obtain ⟨d, hd⟩ := Registry.contains_iff.1 (registered q (by simp [hchain]))
    rw [descend_declared hfound hd]
    have hfold : Ends (sub done q d.declarations) err
        (d.declarations.foldlM (declare r nested chain q) p) :=
      foldlM_ends (sub done q) (w.enter done q rest p hchain hp hfound) fun ds x more p hds hs =>
        (declare_ends p x).imp (fun p' => w.declares done q rest d ds x more p p' hchain hd hds hs)
          fun h => w.fails done q rest d ds x more p h hchain hd hds hs
    exact hfold.map fun p => w.finish done q rest d p hchain hd

end Progress

namespace Attempt

variable {r : Registry} {depth : Nat} {cls : ClassPath} {cache : SchemaCache}

theorem make_cached (cached : cache.has cls = true) :
    make r (depth + 1) cls cache = ⟨cache, [], .ok []⟩ := by
  simp [make, cached]

theorem make_absent (absent : cache.has cls = false) :
    make r (depth + 1) cls cache =
      match Progress.replay r (make r depth) cls cache with
      | .ok p => ⟨p.cache, p.compiled, .ok p.pending⟩
      | .error h =>
        ⟨h.progress.cache.unlockAll h.progress.held, h.progress.compiled, .error h.stop⟩ := by
  rw [make]
  exact if_neg (by simp [absent])

theorem make_ok {pending : OrderedSet ClassPath}
    (h : (make r (depth + 1) cls cache).result = .ok pending) :
    cache.has cls = true ∧ (make r (depth + 1) cls cache).cache = cache ∧ pending = [] ∨
      ∃ p, Progress.replay r (make r depth) cls cache = .ok p ∧
        (make r (depth + 1) cls cache).cache = p.cache ∧ pending = p.pending := by
  cases hc : cache.has cls with
  | true =>
    rw [make_cached hc] at h ⊢
    cases h
    exact Or.inl ⟨rfl, rfl, rfl⟩
  | false =>
    rw [make_absent hc] at h ⊢
    cases hp : Progress.replay r (make r depth) cls cache with
    | ok p =>
      rw [hp] at h
      cases h
      exact Or.inr ⟨p, rfl, rfl, rfl⟩
    | error s => rw [hp] at h; cases h

theorem make_error {stop : Stop} (h : (make r (depth + 1) cls cache).result = .error stop) :
    ∃ s, Progress.replay r (make r depth) cls cache = .error s ∧ s.stop = stop := by
  cases hc : cache.has cls with
  | true => rw [make_cached hc] at h; cases h
  | false =>
    rw [make_absent hc] at h
    cases hp : Progress.replay r (make r depth) cls cache with
    | ok p => rw [hp] at h; cases h
    | error s => rw [hp] at h; exact ⟨s, rfl, Except.error.inj h⟩

section

variable {budget : Nat} {rest : List ClassPath} {compiled : OrderedSet ClassPath}

theorem settle_nil : settle r budget [] cache compiled = ⟨cache, compiled, .ok []⟩ := by
  rw [settle.eq_def]

theorem settle_cached (cached : cache.has cls = true) :
    settle r budget (cls :: rest) cache compiled = settle r budget rest cache compiled := by
  rw [settle.eq_def]
  simp only [cached, if_true]

theorem settle_all_cached {queue : List ClassPath} (cached : ∀ c ∈ queue, cache.has c = true) :
    settle r budget queue cache compiled = ⟨cache, compiled, .ok []⟩ := by
  induction queue with
  | nil => exact settle_nil
  | cons cls rest ih =>
    obtain ⟨first, others⟩ := List.forall_mem_cons.1 cached
    rw [settle_cached first]
    exact ih others

theorem settle_spent (absent : cache.has cls = false) :
    settle r 0 (cls :: rest) cache compiled = ⟨cache, compiled, .error .tooDeep⟩ := by
  rw [settle.eq_def]
  simp only [absent, Bool.false_eq_true, if_false]

theorem settle_failed {stop : Stop} (absent : cache.has cls = false)
    (made : (make r (r.free cache + 1) cls cache).result = .error stop) :
    (settle r (budget + 1) (cls :: rest) cache compiled).result = .error stop := by
  rw [settle.eq_def]
  simp only [absent, made, Bool.false_eq_true, if_false]

theorem settle_made {pending : OrderedSet ClassPath} (absent : cache.has cls = false)
    (made : (make r (r.free cache + 1) cls cache).result = .ok pending) :
    settle r (budget + 1) (cls :: rest) cache compiled =
      settle r budget (rest ++ pending) (make r (r.free cache + 1) cls cache).cache
        (OrderedSet.addAll compiled (make r (r.free cache + 1) cls cache).compiled) := by
  rw [settle.eq_def]
  simp only [absent, made, Bool.false_eq_true, if_false]

end

end Attempt

end LazyBinding
