import LazyBinding.CommandLine.Arguments
import LazyBinding.CommandLine.Check
import LazyBinding.CommandLine.Exporting
import LazyBinding.Description
import LazyBinding.Glob.Search
import LazyBinding.Manifest

/-!
# Running commands

A command loads the manifest and compiles the class before it reads any document. The first failure
ends it and is reported with what led to it.
-/
namespace LazyBinding

/-- What a run leaves on its outputs, and its exit status. -/
structure Outcome where
  status : Nat
  stdout : String
  stderr : String
  deriving DecidableEq, Repr

namespace Outcome

def success (stdout : String) : Outcome := ⟨0, stdout, ""⟩

def failure (messages : Failure) : Outcome :=
  ⟨1, "", "error: " ++ ": ".intercalate messages ++ "\n"⟩

def ofVerdicts (strict : Bool) (verdicts : List (String × Verdict)) : Outcome :=
  let failed := (verdicts.filter fun (_, v) => v.fails strict).length
  let tally := toString failed ++ " of " ++ toString verdicts.length ++ " document(s) failed\n"
  let lines := verdicts.map fun (origin, v) => v.text strict origin
  ⟨if failed = 0 then 0 else 1, String.join lines, tally⟩

end Outcome

def ClassSource.schema [Json.DoubleReader] (c : ClassSource) (strict : Bool) (text : String) :
    Except Failure Schema := do
  let manifest ← (Manifest.parse text).mapError fun e =>
    ("invalid schema manifest " ++ c.manifest) :: e.messages
  let registry ← manifest.registry.mapError SchemaError.messages
  match (Schema.ofRegistry registry strict).compile c.cls with
  | (s, .ok _) => return s
  | (_, .error e) => throw (("failed to compile class " ++ c.cls.text) :: e.messages)

def ClassSource.description (c : ClassSource) (format : DescriptionFormat) (s : Schema) :
    Except Failure String :=
  match format with
  | .json => ((s.jsonSchema c.cls).2.mapError SchemaError.messages).map (Json.encode true)
  | .text => (s.textTable c.cls).2.mapError SchemaError.messages

namespace Command

section

variable {m : Type → Type} [Monad m] [Files m]

abbrev Run (m : Type → Type) := ExceptT Failure m

def settle {α : Type} (result : Except Failure α) : Run m α := ExceptT.mk (pure result)

def attempt {α : Type} (context : String) (operation : m (Except FileError α)) : Run m α := do
  match ← (operation : m (Except FileError α)) with
  | .ok a => return a
  | .error e => throw [context, e.message]

variable [Json.DoubleReader]

def loadSchema (c : ClassSource) (strict : Bool) : Run m Schema := do
  let context := "failed to read schema manifest " ++ c.manifest
  settle (c.schema strict (← attempt context (Files.read c.manifest)))

def resolve (path : String) : Run m (List String) := do
  let context := "failed to resolve input file paths"
  if Glob.Pattern.isPattern path then
    match ← (Glob.matchingPaths path : m (Except Glob.Fault (List String))) with
    | .error f => throw [context, f.message]
    | .ok [] => throw [context, "glob pattern matched no files: " ++ path]
    | .ok paths => return paths
  else return [path]

def loadDocuments [Json.FilterLanguage] (i : InputSelection) : Run m (List Document) := do
  let paths ← i.paths.flatMapM resolve
  paths.flatMapM fun path => do
    let text ← attempt ("failed to read source file " ++ path) (Files.read path)
    settle (i.documents path text)

/-- Writes a text into a file, whose directory is made if need be, or else as lines. -/
def deliver (out : Option String) (text : String) : Run m Outcome := do
  match out with
  | none => return .success (text ++ "\n")
  | some path =>
    match FilePath.parent? path with
    | some parent =>
      attempt ("failed to create " ++ parent) (Files.provideDirectories parent)
    | none => pure ()
    attempt ("failed to write " ++ path) (Files.write path text)
    return .success ""

def perform [Json.FilterLanguage] : Command → Run m Outcome
  | .describe source format out => do
    let schema ← loadSchema source false
    deliver out (← settle (source.description format schema))
  | .check source inputs strict => do
    let schema ← loadSchema source false
    let documents ← loadDocuments inputs
    return .ofVerdicts strict (Verdict.ofDocuments source.cls documents ⟨[schema]⟩)
  | .exportTo source inputs strict out => do
    let schema ← loadSchema source strict
    let documents ← loadDocuments inputs
    let exported ← settle (Document.exportAll source.cls documents ⟨[schema]⟩)
    let document ← settle (Document.combine exported)
    deliver out (document.encode true)

end

end Command

def programVersion : String := "json-lazybind 0.1.0"

def usage : String := "Usage: json-lazybind [-v] describe|check|export --schema FILE --class CLASS"

def runArguments {m : Type → Type} [Monad m] [Files m] [Json.DoubleReader] [Json.FilterLanguage]
    (arguments : List String) : m Outcome := do
  match Arguments.read arguments with
  | .version => return .success (programVersion ++ "\n")
  | .help => return .success (usage ++ "\n")
  | .unusable => return ⟨2, "", usage ++ "\n"⟩
  | .run command =>
    match ← command.perform.run with
    | .ok outcome => return outcome
    | .error messages => return .failure messages

end LazyBinding
