/-!
# Files

What a program needs of a file system, for any monad that has one. Paths are texts with slashes.
-/
namespace LazyBinding

inductive FileError where
  | notFound
  | alreadyExists
  | notDirectory
  | isDirectory
  /-- The bytes of a file are no text. -/
  | notText
  | other (message : String)
  deriving DecidableEq, Repr

def FileError.message : FileError → String
  | notFound => "No such file or directory (os error 2)"
  | alreadyExists => "File exists (os error 17)"
  | notDirectory => "Not a directory (os error 20)"
  | isDirectory => "Is a directory (os error 21)"
  | notText => "stream did not contain valid UTF-8"
  | other message => message

class Files (m : Type → Type) where
  read : String → m (Except FileError String)
  write : (path text : String) → m (Except FileError Unit)
  createDirectory : String → m (Except FileError Unit)
  isPresent : String → m Bool
  isDirectory : String → m Bool
  /-- The names in a directory, in no particular order. -/
  names : String → m (List String)

namespace FilePath

def join (path name : String) : String :=
  if path = "" || path.toList.getLast? == some '/' then path ++ name else path ++ "/" ++ name

/-- Whether a part of a path leads nowhere else; a leading dot does, as it stands for the path. -/
def isIdle (part : List Char) : Bool := part.isEmpty || part == ['.']

def dropIdle (parts : List (List Char)) : List (List Char) :=
  match parts with
  | [] => []
  | first :: rest => first :: (rest.reverse.dropWhile isIdle).reverse

/-- The path of the directory that holds a path; the empty path for a name alone. The empty path
and the root are in none. -/
def parent? (path : String) : Option String :=
  let parts := dropIdle (path.toList.splitOn '/')
  match parts.reverse with
  | [] => none
  | [[]] => none
  | _ :: before =>
    let above := dropIdle before.reverse
    if above == [[]] then some "/"
    else some (String.ofList (List.intercalate ['/'] above))

end FilePath

namespace Files

variable {m : Type → Type} [Monad m] [Files m]

def provideDirectory (path : String) : m (Except FileError Unit) := do
  match ← (Files.createDirectory path : m (Except FileError Unit)) with
  | .error .alreadyExists =>
    if ← Files.isDirectory path then return .ok () else return .error .alreadyExists
  | result => return result

/-- Makes a directory and those that lead to it; a path has fewer parts than characters. -/
def provideAlong : (steps : Nat) → String → m (Except FileError Unit)
  | 0, _ => pure (.ok ())
  | steps + 1, path => do
    match FilePath.parent? path with
    | none => return .ok ()
    | some parent =>
      match ← provideDirectory path with
      | .error .notFound =>
        match ← provideAlong steps parent with
        | .ok () => provideDirectory path
        | .error e => return .error e
      | result => return result

def provideDirectories (path : String) : m (Except FileError Unit) :=
  provideAlong (path.length + 1) path

end Files

end LazyBinding
