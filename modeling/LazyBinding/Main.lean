import LazyBinding.CommandLine.Run
import LazyBinding.Json.Filter.Reader

/-!
# The program

Runs the command that the arguments ask for on the system's own files. Numbers become the nearest
doubles.
-/
namespace LazyBinding.Program

/-- The system's number for an error, if it has one; some operations give it with its sign
changed. -/
def errorNumber? (e : IO.Error) : Option UInt32 :=
  let code? :=
    match e with
    | .noFileOrDirectory _ code _ => some code
    | .alreadyExists _ code _ => some code
    | .inappropriateType _ code _ => some code
    | .permissionDenied _ code _ => some code
    | .resourceExhausted _ code _ => some code
    | .otherError code _ => some code
    | _ => none
  code?.map fun code => min code (0 - code)

def fileError (e : IO.Error) : FileError :=
  match errorNumber? e with
  | some 2 => .notFound
  | some 17 => .alreadyExists
  | some 20 => .notDirectory
  | some 21 => .isDirectory
  | _ => .other (toString e)

def guarded {α : Type} (operation : IO α) : IO (Except FileError α) := do
  try
    return .ok (← operation)
  catch e =>
    return .error (fileError e)

def readText (path : String) : IO (Except FileError String) := do
  match ← guarded (IO.FS.readBinFile path) with
  | .error e => return .error e
  | .ok bytes =>
    match String.fromUTF8? bytes with
    | some text => return .ok text
    | none => return .error .notText

local instance : Json.DoubleReader := Json.nearestDoubles

local instance : Json.FilterLanguage := Json.Filter.language

instance : Files IO where
  read := readText
  write path text := guarded (IO.FS.writeFile path text)
  createDirectory path := guarded (IO.FS.createDir path)
  isPresent path := do
    let here ← IO.currentDir
    (here / path).pathExists
  isDirectory path := do
    let here ← IO.currentDir
    (here / path).isDir
  names path := do
    let here ← IO.currentDir
    try
      let entries ← (here / path).readDir
      return entries.toList.map fun entry => entry.fileName
    catch _ => return []

def run (arguments : List String) : IO Outcome := runArguments arguments

end LazyBinding.Program

open LazyBinding in
def main (arguments : List String) : IO UInt32 := do
  let outcome ← Program.run arguments
  IO.print outcome.stdout
  IO.eprint outcome.stderr
  return outcome.status.toUInt32
