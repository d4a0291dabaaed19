import LazyBinding.Json.Filter
import LazyBinding.Json.Filter.Token
import LazyBinding.Json.FilterLanguage
import LazyBinding.Json.Writer
import LazyBinding.Text.Quoted

/-!
# Reading filters

A bar binds less than a comma and a comma less than a sign; steps down and question marks follow a
term directly. Reading recurses through the levels of the grammar, each of which uses up one unit of
fuel.
-/
namespace LazyBinding.Json

namespace Filter

abbrev Parsed := Option (Filter × List Token)

def reservedWords : List String :=
  ["def", "if", "then", "elif", "else", "end", "as", "reduce", "foreach", "try", "catch", "label",
    "import", "include", "and", "or"]

def takeForgiving : List Token → Bool × List Token
  | .mark 0x3F :: rest => (true, (takeForgiving rest).2)
  | rest => (false, rest)

def expect (byte : UInt8) : List Token → Option (List Token)
  | .mark b :: rest => if b == byte then some rest else none
  | _ => none

def text (s : String) : Filter := .literal (.str s)

mutual

def readPipe : (fuel : Nat) → List Token → Parsed
  | 0, _ => none
  | fuel + 1, tokens => do
    let (first, rest) ← readComma fuel tokens
    match rest with
    | .mark 0x7C :: rest =>
      let (second, rest) ← readPipe fuel rest
      return (.pipe first second, rest)
    | rest => return (first, rest)

def readComma : (fuel : Nat) → List Token → Parsed
  | 0, _ => none
  | fuel + 1, tokens => do
    let (first, rest) ← readTerm fuel tokens
    match rest with
    | .mark 0x2C :: rest =>
      let (second, rest) ← readComma fuel rest
      return (.both first second, rest)
    | rest => return (first, rest)

def readTerm : (fuel : Nat) → List Token → Parsed
  | 0, _ => none
  | fuel + 1, .mark 0x2D :: rest => do
    let (f, rest) ← readTerm fuel rest
    return (.negate f, rest)
  | fuel + 1, tokens => do
    let (f, rest) ← readAtom fuel tokens
    readSteps fuel f rest

def readAtom : (fuel : Nat) → List Token → Parsed
  | 0, _ => none
  | fuel + 1, tokens =>
    match tokens with
    | .mark 0x2E :: .word name :: rest =>
      let (forgiving, rest) := takeForgiving rest
      some (.index .identity (text name) forgiving, rest)
    | .mark 0x2E :: .literal (.str name) :: rest =>
      let (forgiving, rest) := takeForgiving rest
      some (.index .identity (text name) forgiving, rest)
    | .mark 0x2E :: rest => some (.identity, rest)
    | .points :: rest => some (.descendants, rest)
    | .literal v :: rest => some (.literal v, rest)
    | .variable name :: rest => if name = "" then none else some (.word ("$" ++ name), rest)
    | .word name :: .mark 0x28 :: rest => do
      let rest ← readArguments fuel rest
      return (.word (name ++ "()"), rest)
    | .word name :: rest => if name ∈ reservedWords then none else some (.word name, rest)
    | .mark 0x28 :: rest => do
      let (f, rest) ← readPipe fuel rest
      return (f, ← expect 0x29 rest)
    | .mark 0x5B :: .mark 0x5D :: rest => some (.literal (.arr []), rest)
    | .mark 0x5B :: rest => do
      let (f, rest) ← readPipe fuel rest
      return (.collect f, ← expect 0x5D rest)
    | .mark 0x7B :: .mark 0x7D :: rest => some (.literal (.obj []), rest)
    | .mark 0x7B :: rest => readMembers fuel (.literal (.obj [])) rest
    | _ => none

/-- The arguments of a call up to the closing parenthesis. -/
def readArguments : (fuel : Nat) → List Token → Option (List Token)
  | 0, _ => none
  | fuel + 1, tokens => do
    let (_, rest) ← readPipe fuel tokens
    match rest with
    | .mark 0x3B :: rest => readArguments fuel rest
    | rest => expect 0x29 rest

def readSteps : (fuel : Nat) → Filter → List Token → Parsed
  | 0, _, _ => none
  | fuel + 1, f, tokens =>
    match tokens with
    | .mark 0x3F :: rest => readSteps fuel (.attempt f) rest
    | .mark 0x2E :: .word name :: rest =>
      let (forgiving, rest) := takeForgiving rest
      readSteps fuel (.index f (text name) forgiving) rest
    | .mark 0x2E :: .literal (.str name) :: rest =>
      let (forgiving, rest) := takeForgiving rest
      readSteps fuel (.index f (text name) forgiving) rest
    | .mark 0x2E :: .mark 0x5B :: rest | .mark 0x5B :: rest => do
      let (step, rest) ← readBrackets fuel f rest
      let (forgiving, rest) := takeForgiving rest
      readSteps fuel (step forgiving) rest
    | .mark 0x2E :: _ => none
    | rest => some (f, rest)

def readBrackets : (fuel : Nat) → Filter → List Token →
    Option ((Bool → Filter) × List Token)
  | 0, _, _ => none
  | fuel + 1, f, tokens =>
    match tokens with
    | .mark 0x5D :: rest => some (.each f, rest)
    | .mark 0x3A :: rest => do
      let (high, rest) ← readPipe fuel rest
      return (.slice f (.literal .null) high, ← expect 0x5D rest)
    | rest => do
      let (key, rest) ← readPipe fuel rest
      match rest with
      | .mark 0x3A :: .mark 0x5D :: rest => return (.slice f key (.literal .null), rest)
      | .mark 0x3A :: rest =>
        let (high, rest) ← readPipe fuel rest
        return (.slice f key high, ← expect 0x5D rest)
      | rest => return (.index f key, ← expect 0x5D rest)

def readMemberValue : (fuel : Nat) → List Token → Parsed
  | 0, _ => none
  | fuel + 1, tokens => do
    let (first, rest) ← readTerm fuel tokens
    match rest with
    | .mark 0x7C :: rest =>
      let (second, rest) ← readMemberValue fuel rest
      return (.pipe first second, rest)
    | rest => return (first, rest)

def readMember : (fuel : Nat) → List Token → Option (Filter × Filter × List Token)
  | 0, _ => none
  | fuel + 1, tokens =>
    match tokens with
    | .word name :: .mark 0x3A :: rest | .literal (.str name) :: .mark 0x3A :: rest => do
      let (value, rest) ← readMemberValue fuel rest
      return (text name, value, rest)
    | .word name :: rest | .literal (.str name) :: rest =>
      some (text name, .index .identity (text name) false, rest)
    | .variable name :: rest =>
      if name = "" then none else some (text name, .word ("$" ++ name), rest)
    | .mark 0x28 :: rest => do
      let (key, rest) ← readPipe fuel rest
      let rest ← expect 0x29 rest
      let rest ← expect 0x3A rest
      let (value, rest) ← readMemberValue fuel rest
      return (key, value, rest)
    | _ => none

def readMembers : (fuel : Nat) → Filter → List Token → Parsed
  | 0, _, _ => none
  | fuel + 1, f, tokens => do
    let (key, value, rest) ← readMember fuel tokens
    match rest with
    | .mark 0x2C :: rest => readMembers fuel (.withMember f key value) rest
    | rest => return (.withMember f key value, ← expect 0x7D rest)

end

/-- The filter that a text means. Between two tokens at most five levels of the grammar are
entered. -/
def ofText? [DoubleReader] (source : String) : Option Filter := do
  let tokens ← Token.ofText? source
  match ← readPipe (6 * (tokens.length + 1)) tokens with
  | (f, []) => return f
  | _ => none

@[reducible]
def language [DoubleReader] : FilterLanguage where
  run source v :=
    match ofText? source with
    | none => .error ("jq parse error: malformed in " ++ Text.quoted source)
    | some f =>
      if f.isDefined then
        .ok ((f.run v).map fun
          | some output => .ok (output.encode false)
          | none => .error "no such output")
      else .error ("jq undefined symbol: undefined in " ++ Text.quoted source)

end Filter

end LazyBinding.Json
