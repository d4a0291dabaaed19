import LazyBinding.CommandLine.Command
import LazyBinding.Dict

/-!
# Arguments

The arguments of a call name a command and set its options. An option is a word behind two hyphens,
or a letter behind one; letters can be joined, and a value can follow its option directly, behind an
equals sign or as the next argument. An argument that starts with a hyphen is never a value unless
it is a lone hyphen.
-/
namespace LazyBinding.Arguments

inductive ValueRule where
  | any
  | path
  | oneOf (words : List String)
  deriving DecidableEq, Repr

def ValueRule.allows (value : String) : ValueRule → Bool
  | any => true
  | path => value != ""
  | oneOf words => words.contains value

inductive OptionKind where
  | counter
  | flag
  | single (rule : ValueRule)
  /-- One value at least, up to the next option. -/
  | list
  | stop (invocation : Invocation)
  deriving DecidableEq, Repr

structure OptionSpec where
  name : String
  letter : Option Char
  kind : OptionKind
  deriving DecidableEq, Repr

def verbosity : OptionSpec := ⟨"verbose", some 'v', .counter⟩

def helpOption : OptionSpec := ⟨"help", some 'h', .stop .help⟩

def generalOptions : List OptionSpec :=
  [verbosity, helpOption, ⟨"version", some 'V', .stop .version⟩]

def sourceOptions : List OptionSpec :=
  [verbosity, helpOption, ⟨"schema", none, .single .path⟩, ⟨"class", none, .single .any⟩]

def inputOptions : List OptionSpec :=
  [⟨"ndjson", none, .flag⟩, ⟨"json-pointer", none, .single .any⟩,
    ⟨"jq-expr", none, .single .any⟩, ⟨"input", some 'i', .list⟩, ⟨"strict", none, .flag⟩]

def formatOption : OptionSpec := ⟨"format", none, .single (.oneOf ["json", "text"])⟩

def outOption : OptionSpec := ⟨"out", some 'o', .single .path⟩

def commands : List (String × List OptionSpec) :=
  [("describe", sourceOptions ++ [formatOption, outOption]),
    ("check", sourceOptions ++ inputOptions),
    ("export", sourceOptions ++ inputOptions ++ [outOption]),
    ("help", [])]

structure Scan where
  options : List OptionSpec
  command : Option String
  settings : Dict String (List String)
  /-- The option that takes the next arguments as values, and whether it still needs one. -/
  awaiting : Option (OptionSpec × Bool)

namespace Scan

def start : Scan := ⟨generalOptions, none, [], none⟩

def isOpen (s : Scan) : Bool := s.awaiting.any Prod.snd

def values (s : Scan) (name : String) : List String := (Dict.get? s.settings name).getD []

def isSet (s : Scan) (name : String) : Bool := Dict.has s.settings name

/-- Notes that an option is set. A flag or a single option may not come twice. -/
def set (s : Scan) (o : OptionSpec) : Except Invocation Scan :=
  match o.kind with
  | .stop invocation => .error invocation
  | .counter | .list =>
    .ok { s with settings := Dict.put s.settings o.name (s.values o.name), awaiting := none }
  | .flag | .single _ =>
    if s.isSet o.name then .error .unusable
    else .ok { s with settings := Dict.put s.settings o.name [], awaiting := none }

def valueRule? (o : OptionSpec) : Option ValueRule :=
  match o.kind with
  | .single rule => some rule
  | .list => some .any
  | _ => none

def addValue (s : Scan) (o : OptionSpec) (value : String) : Except Invocation Scan :=
  if (valueRule? o).any (·.allows value) then
    .ok { s with settings := Dict.put s.settings o.name (s.values o.name ++ [value]) }
  else .error .unusable

def setWith (s : Scan) (o : OptionSpec) (attached : Option String) : Except Invocation Scan :=
  match attached, valueRule? o with
  | some value, some _ => (s.set o).bind fun s => s.addValue o value
  | some _, none => .error .unusable
  | none, some _ => (s.set o).map fun s => { s with awaiting := some (o, true) }
  | none, none => s.set o

def afterEquals (text : List Char) : Option String :=
  match text with
  | '=' :: value => some (String.ofList value)
  | _ => none

def readLong (s : Scan) (text : List Char) : Except Invocation Scan :=
  let name := String.ofList (text.takeWhile (· != '='))
  match s.options.find? fun o => o.name == name with
  | none => .error .unusable
  | some o => s.setWith o (afterEquals (text.dropWhile (· != '=')))

/-- Reads options that are named by letters; the first that takes a value takes what is left. -/
def readLetters (s : Scan) : List Char → Except Invocation Scan
  | [] => .ok s
  | c :: rest =>
    match s.options.find? fun o => o.letter == some c with
    | none => .error .unusable
    | some o =>
      if (valueRule? o).isSome then
        match rest with
        | [] => s.setWith o none
        | rest => s.setWith o (some ((afterEquals rest).getD (String.ofList rest)))
      else
        match s.setWith o none with
        | .error invocation => .error invocation
        | .ok s => s.readLetters rest

def readPlain (s : Scan) (argument : String) : Except Invocation Scan :=
  match s.awaiting with
  | some (o, _) =>
    let awaiting := if o.kind = .list then some (o, false) else none
    (s.addValue o argument).map fun s => { s with awaiting := awaiting }
  | none =>
    match s.command with
    | some _ => .error .unusable
    | none =>
      match Dict.get? commands argument with
      | none => .error .unusable
      | some options => .ok { s with command := some argument, options := options }

/-- Reads all arguments. Behind two lone hyphens nothing may follow. -/
def readAll (s : Scan) : List String → Except Invocation Scan
  | [] => if s.isOpen then .error .unusable else .ok s
  | argument :: rest =>
    match argument.toList with
    | ['-', '-'] => if s.isOpen || !rest.isEmpty then .error .unusable else .ok s
    | '-' :: '-' :: text =>
      if s.isOpen then .error .unusable
      else
        match s.readLong text with
        | .error invocation => .error invocation
        | .ok s => s.readAll rest
    | '-' :: c :: text =>
      if s.isOpen then .error .unusable
      else
        match s.readLetters (c :: text) with
        | .error invocation => .error invocation
        | .ok s => s.readAll rest
    | _ =>
      match s.readPlain argument with
      | .error invocation => .error invocation
      | .ok s => s.readAll rest

def required (s : Scan) (name : String) : Except Invocation String :=
  match s.values name with
  | value :: _ => .ok value
  | [] => .error .unusable

def source (s : Scan) : Except Invocation ClassSource := do
  return ⟨← s.required "schema", ⟨← s.required "class"⟩⟩

def out? (s : Scan) : Option String := (s.values "out").head?

def inputs (s : Scan) : Except Invocation InputSelection :=
  match s.values "input" with
  | [] => .error .unusable
  | paths =>
    .ok {
      isByLine := s.isSet "ndjson"
      pointer := (s.values "json-pointer").head?
      filter := (s.values "jq-expr").head?
      paths }

def format (s : Scan) : DescriptionFormat :=
  match s.values "format" with
  | "text" :: _ => .text
  | _ => .json

def build (s : Scan) : Except Invocation Command := do
  match s.command with
  | some "describe" => return .describe (← s.source) s.format s.out?
  | some "check" => return .check (← s.source) (← s.inputs) (s.isSet "strict")
  | some "export" =>
    return .exportTo (← s.source) (← s.inputs) (s.isSet "strict") s.out?
  | some "help" => throw .help
  | _ => throw .unusable

end Scan

def read (arguments : List String) : Invocation :=
  match (Scan.start.readAll arguments).bind Scan.build with
  | .ok command => .run command
  | .error invocation => invocation

end LazyBinding.Arguments
