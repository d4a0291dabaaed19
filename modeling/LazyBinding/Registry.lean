import LazyBinding.Hook
import LazyBinding.SchemaError
import LazyBinding.Text.Blank

/-!
# Class registry

The classes known to one schema, in the order of their registration. The root class is always
there and comes first. References between classes are texts that the registry resolves; the chain
of resolved parents is the ancestry of a class.
-/
namespace LazyBinding

inductive Declaration where
  | field (name definition : String)
  /-- Takes over the whole field table of the class that the reference names. -/
  | imports (reference : String)
  deriving DecidableEq, Repr

structure ClassDecl where
  id : ClassPath
  /-- Reference to the parent; a class without one descends from the root class. -/
  parent : Option String
  declarations : List Declaration
  hook : Option Hook

def ClassDecl.root : ClassDecl := ⟨.root, none, [], none⟩

/-- Registered classes; the paths are well-formed and none comes twice or is that of the root. -/
structure Registry where
  declared : List ClassDecl
  wellFormed : ∀ d ∈ declared, d.id.isWellFormed = true
  distinct : (ClassPath.root :: declared.map ClassDecl.id).Nodup

namespace Registry

def empty : Registry := ⟨[], by simp, by simp⟩

instance : Inhabited Registry := ⟨empty⟩

def classes (r : Registry) : List ClassDecl := ClassDecl.root :: r.declared

def ids (r : Registry) : List ClassPath := r.classes.map ClassDecl.id

def get? (r : Registry) (id : ClassPath) : Option ClassDecl :=
  r.classes.find? fun d => d.id == id

def contains (r : Registry) (id : ClassPath) : Bool := r.ids.contains id

def register (r : Registry) (d : ClassDecl) : Except SchemaError Registry :=
  if wellFormed : d.id.isWellFormed = true then
    if fresh : d.id ∈ r.ids then .error (.badSchema d.id .alreadyRegistered)
    else
      .ok {
        declared := r.declared ++ [d]
        wellFormed := by
          intro e he
          rcases List.mem_append.mp he with he | he
          · exact r.wellFormed e he
          · rw [List.mem_singleton.mp he]
            exact wellFormed
        distinct := by
          have h : (ClassPath.root :: r.declared.map ClassDecl.id ++ [d.id]).Nodup := by
            rw [List.nodup_append]
            refine ⟨r.distinct, by simp, ?_⟩
            intro a ha b hb hab
            rw [List.mem_singleton.mp hb] at hab
            subst hab
            exact fresh ha
          simpa using h }
  else .error (.badSchema d.id .invalidPath)

def ofDecls (decls : List ClassDecl) : Except SchemaError Registry :=
  decls.foldlM register empty

def lookup (r : Registry) (path : String) : Option ClassPath :=
  if r.contains ⟨path⟩ then some ⟨path⟩ else none

/-- Resolves a reference written inside the class `source`. A leading backslash makes it absolute;
the name of the root class means the root class; any other name is looked up in the namespace of
`source` first and then as a whole path. -/
def resolve (r : Registry) (reference : String) (source : ClassPath) : Option ClassPath :=
  match Text.trim reference.toList with
  | '\\' :: absolute => r.lookup (String.ofList absolute)
  | trimmed =>
    let name := String.ofList trimmed
    if name = ClassPath.root.text then some .root
    else
      match source.namespace? with
      | none => r.lookup name
      | some space =>
        (r.lookup (ClassPath.inNamespace space name).text).orElse fun _ => r.lookup name

def parent? (r : Registry) (d : ClassDecl) : Except SchemaError ClassPath :=
  match d.parent with
  | none => .ok .root
  | some reference =>
    match r.resolve reference d.id with
    | some parent => .ok parent
    | none => .error (.badSchema d.id (.unknownParent reference))

/-- Follows parents from `current` to the root. `below` is the path walked so far, nearest first;
a class that is on it already closes a loop. -/
def climb (r : Registry) (start : ClassPath) :
    (steps : Nat) → (below : List ClassPath) → (current : ClassPath) →
      Except SchemaError (List ClassPath)
  | 0, _, _ => .error (.badSchema start .inheritanceLoop)
  | steps + 1, below, current =>
    match r.get? current with
    | none => .error (.badSchema current .notRegistered)
    | some d =>
      if current ∈ below then .error (.badSchema start .inheritanceLoop)
      else if current.isRoot then .ok (current :: below)
      else
        match r.parent? d with
        | .error e => .error e
        | .ok parent => climb r start steps (current :: below) parent

/-- The ancestry of a class, root first and the class itself last. No path is longer than the
number of classes. -/
def ancestorChain (r : Registry) (id : ClassPath) : Except SchemaError (List ClassPath) :=
  r.climb id (r.classes.length + 1) [] id

/-- The hook that a class runs: its own, else that of its nearest ancestor with one. -/
def hook? (r : Registry) (id : ClassPath) : Option Hook :=
  match r.ancestorChain id with
  | .error _ => none
  | .ok chain => chain.reverse.findSome? fun c => (r.get? c).bind ClassDecl.hook

/-- Descends by inheritance; imports do not count. -/
def isA (r : Registry) (id ancestor : ClassPath) : Bool :=
  if id = ancestor ∨ ancestor.isRoot then r.contains id
  else
    match r.ancestorChain id with
    | .error _ => false
    | .ok chain => chain.contains ancestor

end Registry

end LazyBinding
