import LazyBinding.Files
import LazyBinding.Glob
import LazyBinding.Sorted

/-!
# Searching for files

The files that a pattern for a path matches, in the order of their names. Parts of the pattern
between slashes are matched with names one directory at a time; a part without special characters
is just looked up.
-/
namespace LazyBinding.Glob

inductive Candidate where
  /-- Matches all of the pattern. -/
  | found (path : String)
  /-- A name in a directory that is still to be matched with the rest of the pattern. -/
  | entry (path name : String) (patterns : List Pattern)

section

variable {m : Type → Type} [Monad m] [Files m]

def childPath (directory name : String) : String :=
  if directory = "." then name else FilePath.join directory name

/-- The candidates for some patterns inside a directory. The names `.` and `..` match only a
pattern that starts with a dot. -/
def candidates : List Pattern → String → m (List Candidate)
  | [], _ => pure []
  | p :: rest, directory => do
    let below (path : String) : m (List Candidate) :=
      if rest.isEmpty then pure [.found path] else candidates rest path
    match p.literal? with
    | some name =>
      let path := childPath directory name
      let present ←
        if name = "." ∨ name = ".." then Files.isDirectory directory else Files.isPresent path
      if present then below path else pure []
    | none =>
      if ← Files.isDirectory directory then
        let names := Sorted.setOfList (← Files.names directory)
        let entries := names.map fun name => .entry (childPath directory name) name (p :: rest)
        let dots := if p.startsWithDot then ["..", "."].filter p.matchesName else []
        let special ← dots.flatMapM fun name => below (FilePath.join directory name)
        return special ++ entries
      else return []

def search (onlyDirectories : Bool) : (steps : Nat) → Candidate → m (List String)
  | 0, _ => pure []
  | steps + 1, candidate => do
    let accept (path : String) : m (List String) := do
      if onlyDirectories then
        if ← Files.isDirectory path then return [path] else return []
      else return [path]
    let inside (patterns : List Pattern) (path : String) : m (List String) := do
      (← candidates patterns path).flatMapM (search onlyDirectories steps)
    let matched (p : Pattern) (rest : List Pattern) (path name : String) : m (List String) :=
      if !p.matchesName name then pure []
      else if rest.isEmpty then accept path
      else inside rest path
    match candidate with
    | .found path => accept path
    | .entry _ _ [] => return []
    | .entry path name (p :: rest) =>
      if p.isAnyDepth then
        let rest := rest.dropWhile Pattern.isAnyDepth
        let isDirectory ← Files.isDirectory path
        let deeper ← if isDirectory then inside (p :: rest) path else pure []
        match rest with
        | [] => return (if isDirectory then [path] else []) ++ deeper
        | q :: more => return (← matched q more path name) ++ deeper
      else matched p rest path name

def partsOf (text : List Char) : List (List Char) :=
  let parts := text.splitOn '/'
  if parts.getLast? == some [] then parts.dropLast else parts

def maxPathLength : Nat := 4096

def startOf (text : List Char) : Except Fault (String × List Pattern) := do
  let _ ← Pattern.ofText (String.ofList text)
  match text with
  | '/' :: rest =>
    return ("/", ← (partsOf rest).mapM fun part => Pattern.ofText (String.ofList part))
  | text => return (".", ← (partsOf text).mapM fun part => Pattern.ofText (String.ofList part))

def matchingPaths (text : String) : m (Except Fault (List String)) := do
  match startOf text.toList with
  | .error f => return .error f
  | .ok (directory, patterns) =>
    let onlyDirectories := text.toList.getLast? == some '/'
    let steps := maxPathLength + patterns.length
    let first ← candidates patterns directory
    return .ok (← first.flatMapM (search onlyDirectories steps))

end

end LazyBinding.Glob
