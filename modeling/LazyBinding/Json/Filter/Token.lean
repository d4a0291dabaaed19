import LazyBinding.Json.Number
import LazyBinding.Json.Quoted

/-!
# Tokens of filters

The text of a filter is cut into marks, words, variables and JSON literals; blanks separate them.
-/
namespace LazyBinding.Json.Filter

inductive Token where
  | mark (byte : UInt8)
  | points
  | word (name : String)
  | variable (name : String)
  | literal (v : Json)

namespace Token

def isWordStart (byte : UInt8) : Bool :=
  (0x61 ≤ byte && byte ≤ 0x7A) || (0x41 ≤ byte && byte ≤ 0x5A) || byte == 0x5F

def isWordPart (byte : UInt8) : Bool := isWordStart byte || isDigitByte byte

/-- One of `. [ ] ( ) : ; , | ? -` and the braces. -/
def isMark (byte : UInt8) : Bool :=
  [0x2E, 0x5B, 0x5D, 0x28, 0x29, 0x3A, 0x3B, 0x2C, 0x7C, 0x3F, 0x2D, 0x7B, 0x7D].contains byte

def takeWord (c : Cursor) : String × Cursor :=
  let bytes := c.rest.takeWhile isWordPart
  (String.ofList (bytes.map fun byte => Char.ofNat byte.toNat), c.skip bytes.length)

variable [DoubleReader]

def read? (byte : UInt8) (c : Cursor) : Option (Token × Cursor) :=
  if isWordStart byte then
    let (name, c) := takeWord c
    some (.word name, c)
  else if byte == 0x24 then
    let (name, c) := takeWord c.advance
    some (.variable name, c)
  else if byte == 0x22 then
    match readString c.advance with
    | .ok (s, c) => some (.literal (.str s), c)
    | .error _ => none
  else if isDigitByte byte then
    match readNumber false c with
    | .ok (v, c) => some (.literal v, c)
    | .error _ => none
  else if byte == 0x2E && c.advance.peek? == some 0x2E then some (.points, c.advance.advance)
  else if isMark byte then some (.mark byte, c.advance)
  else none

def readAll : (steps : Nat) → Cursor → Option (List Token)
  | 0, _ => none
  | steps + 1, c =>
    let c := c.skipBlanks
    match c.peek? with
    | none => some []
    | some byte => do
      let (token, c) ← read? byte c
      let tokens ← readAll steps c
      return token :: tokens

def ofText? (text : String) : Option (List Token) :=
  let c := Cursor.ofText text
  readAll (c.rest.length + 1) c

end Token

end LazyBinding.Json.Filter
