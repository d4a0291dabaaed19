import LazyBinding.SchemaCache
import LazyBinding.TypeDefinition

/-!
# Compilation

Compiling a class replays its ancestry from the root down: each ancestor starts from the table of
the one above it, its fields set the types of their names and its imports set every entry of the
imported table. Ancestors and imports are compiled on the way and locked while they are open, so
that a cycle of parents and imports is noticed. The classes of object-typed fields are only
collected, and compiled once nothing is locked any more; they may refer to each other freely.

A compilation that fails takes back every table it has cached and every lock it has taken.
-/
namespace LazyBinding

structure Progress where
  cache : SchemaCache
  working : FieldTable
  /-- Locks taken for this class and not yet released. -/
  held : OrderedSet ClassPath
  /-- Classes cached so far, by nested work too. -/
  compiled : OrderedSet ClassPath
  /-- Classes of object-typed fields that were not cached when their field was declared. -/
  pending : OrderedSet ClassPath

inductive Stop where
  | fault (e : SchemaError)
  /-- The allowed depth of nested work is used up. -/
  | tooDeep
  deriving DecidableEq, Repr

structure Halt where
  stop : Stop
  progress : Progress

/-- What the work on one class leaves behind: the cache, the classes it has cached and, if it went
well, the classes it leaves to be compiled. -/
structure Attempt where
  cache : SchemaCache
  compiled : OrderedSet ClassPath
  result : Except Stop (OrderedSet ClassPath)

namespace Progress

def halt (p : Progress) (e : SchemaError) : Except Halt Progress := .error ⟨.fault e, p⟩

def declareField (r : Registry) (owner : ClassPath) (name definition : String) (p : Progress) :
    Except Halt Progress :=
  if name = "" then p.halt (.badSchema owner .emptyFieldName)
  else
    match FieldType.parse r owner definition with
    | .error e => p.halt (.badDefinition owner name definition e.fault)
    | .ok type =>
      let pending :=
        match type.class? with
        | none => p.pending
        | some target => if p.cache.has target then p.pending else OrderedSet.add p.pending target
      .ok { p with pending := pending, working := Dict.put p.working name type }

def absorb (p : Progress) (owner target : ClassPath) (nested : Attempt) : Except Halt Progress :=
  let p :=
    { p with cache := nested.cache, compiled := OrderedSet.addAll p.compiled nested.compiled }
  match nested.result with
  | .ok pending => .ok { p with pending := OrderedSet.addAll p.pending pending }
  | .error (.fault e) => p.halt (.importFailed owner target e)
  | .error .tooDeep => .error ⟨.tooDeep, p⟩

def importClass (r : Registry) (nested : ClassPath → SchemaCache → Attempt)
    (chain : List ClassPath) (owner : ClassPath) (reference : String) (p : Progress) :
    Except Halt Progress :=
  match r.resolve reference owner with
  | none => p.halt (.badSchema owner (.unknownImport reference))
  | some target =>
    if target = owner ∨ target ∈ chain ∨ p.cache.isLocked target then
      p.halt (.circularReference owner target)
    else
      let imported :=
        if p.cache.has target then .ok p else p.absorb owner target (nested target p.cache)
      match imported with
      | .error h => .error h
      | .ok p =>
        match p.cache.get? target with
        | none => p.halt (.badSchema target .missingAfterImport)
        | some table => .ok { p with working := Dict.putAll p.working table }

def declare (r : Registry) (nested : ClassPath → SchemaCache → Attempt) (chain : List ClassPath)
    (owner : ClassPath) (p : Progress) : Declaration → Except Halt Progress
  | .field name definition => p.declareField r owner name definition
  | .imports reference => p.importClass r nested chain owner reference

def finish (p : Progress) (cls : ClassPath) : Progress :=
  let cache := p.cache.put cls p.working
  { p with
    cache := if cls ∈ p.held then cache.unlock cls else cache
    compiled := OrderedSet.add p.compiled cls
    held := p.held.erase cls }

def descend (r : Registry) (nested : ClassPath → SchemaCache → Attempt) (chain : List ClassPath)
    (p : Progress) (cls : ClassPath) : Except Halt Progress :=
  match p.cache.get? cls with
  | some table => .ok { p with working := table }
  | none =>
    match r.get? cls with
    | none => p.halt (.badSchema cls .notRegistered)
    | some d =>
      match d.declarations.foldlM (declare r nested chain cls) p with
      | .error h => .error h
      | .ok p => .ok (p.finish cls)

def replay (r : Registry) (nested : ClassPath → SchemaCache → Attempt) (cls : ClassPath)
    (cache : SchemaCache) : Except Halt Progress :=
  let start : Progress := ⟨cache, [], [], [], []⟩
  match r.ancestorChain cls with
  | .error e => start.halt e
  | .ok chain =>
    match chain.find? cache.isLocked with
    | some ancestor => start.halt (.circularReference ancestor cls)
    | none =>
      let fresh := chain.filter fun c => !cache.has c
      let opened := { start with cache := cache.lockAll fresh, held := fresh }
      match chain.foldlM (descend r nested chain) opened with
      | .error h => .error h
      | .ok p =>
        if p.cache.has cls then .ok p else p.halt (.badSchema cls .missingAfterCompilation)

end Progress

/-- Works on one class with at most `depth` levels of work inside each other. Locks that are still
held when the work stops are released. -/
def Attempt.make (r : Registry) : (depth : Nat) → ClassPath → SchemaCache → Attempt
  | 0, _, cache => ⟨cache, [], .error .tooDeep⟩
  | depth + 1, cls, cache =>
    if cache.has cls then ⟨cache, [], .ok []⟩
    else
      match Progress.replay r (make r depth) cls cache with
      | .ok p => ⟨p.cache, p.compiled, .ok p.pending⟩
      | .error h =>
        ⟨h.progress.cache.unlockAll h.progress.held, h.progress.compiled, .error h.stop⟩

def Registry.uncached (r : Registry) (cache : SchemaCache) : Nat :=
  (r.ids.filter fun c => !cache.has c).length

/-- How many registered classes are neither cached nor locked. -/
def Registry.free (r : Registry) (cache : SchemaCache) : Nat :=
  (r.ids.filter fun c => !cache.has c && !cache.isLocked c).length

/-- Compiles the classes of a queue and those that they leave behind, in order. Each class that is
compiled uses up one unit of the budget. -/
def Attempt.settle (r : Registry) (budget : Nat) (queue : List ClassPath) (cache : SchemaCache)
    (compiled : OrderedSet ClassPath) : Attempt :=
  match queue with
  | [] => ⟨cache, compiled, .ok []⟩
  | cls :: rest =>
    if cache.has cls then settle r budget rest cache compiled
    else
      match budget with
      | 0 => ⟨cache, compiled, .error .tooDeep⟩
      | budget + 1 =>
        let nested := make r (r.free cache + 1) cls cache
        let compiled := OrderedSet.addAll compiled nested.compiled
        match nested.result with
        | .error stop => ⟨nested.cache, compiled, .error stop⟩
        | .ok pending => settle r budget (rest ++ pending) nested.cache compiled
  termination_by (budget, queue.length)

def Stop.error (cls : ClassPath) : Stop → SchemaError
  | .fault e => e
  | .tooDeep => .badSchema cls .missingAfterCompilation

/-- Compiles a class and all that it depends on. A cached class is left as it is; a failure leaves
the cache as it was. -/
def SchemaCache.compile (r : Registry) (cache : SchemaCache) (cls : ClassPath) :
    SchemaCache × Except SchemaError FieldTable :=
  match cache.get? cls with
  | some table => (cache, .ok table)
  | none =>
    let first := Attempt.make r (r.free cache + 1) cls cache
    match first.result with
    | .error stop => (first.cache.eraseAll first.compiled, .error (stop.error cls))
    | .ok pending =>
      let all := Attempt.settle r (r.uncached first.cache) pending first.cache first.compiled
      match all.result with
      | .error stop =>
        (all.cache.eraseAll all.compiled, .error (.propertyClassFailed cls (stop.error cls)))
      | .ok _ =>
        match all.cache.get? cls with
        | some table => (all.cache, .ok table)
        | none => (all.cache, .error (.badSchema cls .missingAfterCompilation))

end LazyBinding
