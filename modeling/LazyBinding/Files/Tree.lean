import LazyBinding.Dict
import LazyBinding.Files

/-!
# File trees

A file system as a value: what stands where below the working directory. Paths that start with a
slash lead to a root of their own, which is empty at first.
-/
namespace LazyBinding

inductive FileEntry where
  | directory
  | file (text : String)
  deriving DecidableEq, Repr

abbrev Location := List String

structure FileTree where
  entries : Dict Location FileEntry
  deriving DecidableEq, Repr

namespace FileTree

def empty : FileTree := ⟨[]⟩

def slash : Location := ["/"]

/-- The entry at a place; the working directory and the root are always there. -/
def entry? (t : FileTree) (here : Location) : Option FileEntry :=
  if here = [] ∨ here = slash then some .directory else Dict.get? t.entries here

def put (t : FileTree) (here : Location) (e : FileEntry) : FileTree :=
  ⟨Dict.put t.entries here e⟩

def above (here : Location) : Location := if here = slash then here else here.dropLast

/-- Follows a path from a place. The last name may be missing. -/
def follow (t : FileTree) (here : Location) : List String → Except FileError Location
  | [] => .ok here
  | part :: rest =>
    match t.entry? here with
    | none => .error .notFound
    | some (.file _) => .error .notDirectory
    | some .directory =>
      if part = "" ∨ part = "." then t.follow here rest
      else if part = ".." then t.follow (above here) rest
      else t.follow (here ++ [part]) rest

def start (path : String) : Location × List String :=
  let parts := (path.toList.splitOn '/').map String.ofList
  if path.toList.head? == some '/' then (slash, parts) else ([], parts)

def locate (t : FileTree) (path : String) : Except FileError (Location × FileEntry) :=
  if path = "" then .error .notFound
  else
    let (here, parts) := start path
    match t.follow here parts with
    | .error e => .error e
    | .ok there =>
      match t.entry? there with
      | some e => .ok (there, e)
      | none => .error .notFound

def read (t : FileTree) (path : String) : Except FileError String :=
  match t.locate path with
  | .error e => .error e
  | .ok (_, .directory) => .error .isDirectory
  | .ok (_, .file text) => .ok text

/-- Writes a file; a path that ends in a slash means a directory. -/
def write (t : FileTree) (path text : String) : Except FileError FileTree :=
  if path = "" then .error .notFound
  else
    let (here, parts) := start path
    match t.follow here (parts.reverse.dropWhile (· == "")).reverse with
    | .error e => .error e
    | .ok there =>
      if path.toList.getLast? == some '/' || t.entry? there == some .directory then
        .error .isDirectory
      else .ok (t.put there (.file text))

def createDirectory (t : FileTree) (path : String) : Except FileError FileTree :=
  if path = "" then .error .notFound
  else
    let (here, parts) := start path
    match t.follow here (parts.reverse.dropWhile (· == "")).reverse with
    | .error e => .error e
    | .ok there =>
      if (t.entry? there).isSome then .error .alreadyExists
      else if (t.entry? there.dropLast).isNone then .error .notFound
      else .ok (t.put there .directory)

def isDirectory (t : FileTree) (path : String) : Bool :=
  match t.locate path with
  | .ok (_, .directory) => true
  | _ => false

def names (t : FileTree) (path : String) : List String :=
  match t.locate path with
  | .ok (here, .directory) =>
    t.entries.filterMap fun (place, _) =>
      if place.dropLast = here then place.getLast? else none
  | _ => []

def change (f : FileTree → Except FileError FileTree) : StateM FileTree (Except FileError Unit) :=
  fun t =>
    match f t with
    | .ok changed => (.ok (), changed)
    | .error e => (.error e, t)

instance : Files (StateM FileTree) where
  read path := fun t => (t.read path, t)
  write path text := change fun t => t.write path text
  createDirectory path := change fun t => t.createDirectory path
  isPresent path := fun t => ((t.locate path).isOk, t)
  isDirectory path := fun t => (t.isDirectory path, t)
  names path := fun t => (t.names path, t)

def addFile (path text : String) : StateM FileTree (Except FileError Unit) := do
  match ← Files.provideDirectories ((FilePath.parent? path).getD "") with
  | .ok () => Files.write path text
  | .error e => return .error e

end FileTree

end LazyBinding
