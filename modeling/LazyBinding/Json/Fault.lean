/-!
# Faults in JSON text

What is wrong with a text, the line and column where it was noticed, and the path of the value that
was being read.
-/
namespace LazyBinding.Json

inductive Segment where
  | index (i : Nat)
  | key (k : String)
  /-- A member whose key is not known yet. -/
  | unknown
  deriving DecidableEq, Repr

abbrev Path := List Segment

/-- Indices follow directly, keys after a point; the document itself is a lone point. -/
def Path.text : Path → String
  | [] => "."
  | first :: rest => write first ++ String.join (rest.map fun s => separator s ++ write s)
where
  write : Segment → String
    | .index i => "[" ++ toString i ++ "]"
    | .key k => k
    | .unknown => "?"
  separator : Segment → String
    | .index _ => ""
    | _ => "."

inductive Problem where
  | endInValue
  | endInArray
  | endInObject
  | endInString
  | expectedValue
  | expectedWord
  | expectedColon
  | expectedArrayEnd
  | expectedObjectEnd
  | trailingComma
  | keyNotAString
  | invalidNumber
  | numberOutOfRange
  | invalidEscape
  | endOfHexEscape
  | loneSurrogate
  | controlCharacter
  | invalidCodePoint
  | tooDeep
  | trailingCharacters
  deriving DecidableEq, Repr

def Problem.message : Problem → String
  | endInValue => "EOF while parsing a value"
  | endInArray => "EOF while parsing a list"
  | endInObject => "EOF while parsing an object"
  | endInString => "EOF while parsing a string"
  | expectedValue => "expected value"
  | expectedWord => "expected ident"
  | expectedColon => "expected `:`"
  | expectedArrayEnd => "expected `,` or `]`"
  | expectedObjectEnd => "expected `,` or `\x7d`"
  | trailingComma => "trailing comma"
  | keyNotAString => "key must be a string"
  | invalidNumber => "invalid number"
  | numberOutOfRange => "number out of range"
  | invalidEscape => "invalid escape"
  | endOfHexEscape => "unexpected end of hex escape"
  | loneSurrogate => "lone leading surrogate in hex escape"
  | controlCharacter => "control character (\\u0000-\\u001F) found while parsing a string"
  | invalidCodePoint => "invalid unicode code point"
  | tooDeep => "recursion limit exceeded"
  | trailingCharacters => "trailing characters"

/-- A place in a text: lines from one, columns as bytes since the last line feed. -/
structure Position where
  line : Nat
  column : Nat
  deriving DecidableEq, Repr

def Position.text (p : Position) : String :=
  "line " ++ toString p.line ++ " column " ++ toString p.column

def Position.after (p : Position) (byte : UInt8) : Position :=
  if byte == 0x0A then ⟨p.line + 1, 0⟩ else ⟨p.line, p.column + 1⟩

structure Fault where
  path : Path
  problem : Problem
  position : Position
  deriving DecidableEq, Repr

def Fault.within (segment : Segment) (f : Fault) : Fault := { f with path := segment :: f.path }

def Fault.message (f : Fault) : String := f.problem.message ++ " at " ++ f.position.text

end LazyBinding.Json
