import LazyBinding.Json.Cursor

/-!
# JSON strings

Reading goes byte by byte: a string ends at the first quote that no backslash precedes, escapes
stand for characters, and a pair of hexadecimal escapes for one character beyond U+FFFF. The bytes
of a string have to be UTF-8. Writing escapes the quote, the backslash and the characters below
U+0020, and nothing else.
-/
namespace LazyBinding.Json

inductive StringMode where
  | plain
  | escaped
  /-- Inside the four digits of a hexadecimal escape, which may complete a surrogate pair; the
  digits come latest first. -/
  | hex (high : Option Nat) (digits : List UInt8)
  | pairBackslash (high : Nat)
  | pairLetter (high : Nat)

def shortEscape? (byte : UInt8) : Option UInt8 :=
  if byte == 0x22 then some 0x22
  else if byte == 0x5C then some 0x5C
  else if byte == 0x2F then some 0x2F
  else if byte == 0x62 then some 0x08
  else if byte == 0x66 then some 0x0C
  else if byte == 0x6E then some 0x0A
  else if byte == 0x72 then some 0x0D
  else if byte == 0x74 then some 0x09
  else none

def hexDigit? (byte : UInt8) : Option Nat :=
  let n := byte.toNat
  if 0x30 ≤ n && n ≤ 0x39 then some (n - 0x30)
  else if 0x61 ≤ n && n ≤ 0x66 then some (n - 0x61 + 10)
  else if 0x41 ≤ n && n ≤ 0x46 then some (n - 0x41 + 10)
  else none

def hexValue? : List UInt8 → Option Nat
  | [] => some 0
  | digit :: rest => do
    let low ← hexDigit? digit
    let high ← hexValue? rest
    return 16 * high + low

def isHighSurrogate (n : Nat) : Bool := 0xD800 ≤ n && n ≤ 0xDBFF

def isLowSurrogate (n : Nat) : Bool := 0xDC00 ≤ n && n ≤ 0xDFFF

inductive StringStep where
  | go (mode : StringMode) (bytes : List UInt8)
  | done
  | fail (problem : Problem)

def hexStep (high : Option Nat) (value : Nat) : StringStep :=
  match high with
  | none =>
    if isLowSurrogate value then .fail .loneSurrogate
    else if isHighSurrogate value then .go (.pairBackslash value) []
    else .go .plain (String.utf8EncodeChar (Char.ofNat value))
  | some high =>
    if isLowSurrogate value then
      .go .plain (String.utf8EncodeChar
        (Char.ofNat (0x10000 + 0x400 * (high - 0xD800) + (value - 0xDC00))))
    else .fail .loneSurrogate

def stringStep (byte : UInt8) : StringMode → StringStep
  | .plain =>
    if byte == 0x22 then .done
    else if byte == 0x5C then .go .escaped []
    else if byte < 0x20 then .fail .controlCharacter
    else .go .plain [byte]
  | .escaped =>
    if byte == 0x75 then .go (.hex none []) []
    else
      match shortEscape? byte with
      | some c => .go .plain [c]
      | none => .fail .invalidEscape
  | .hex high digits =>
    let digits := byte :: digits
    if digits.length < 4 then .go (.hex high digits) []
    else
      match hexValue? digits with
      | none => .fail .invalidEscape
      | some value => hexStep high value
  | .pairBackslash high =>
    if byte == 0x5C then .go (.pairLetter high) [] else .fail .endOfHexEscape
  | .pairLetter high =>
    if byte == 0x75 then .go (.hex (some high) []) [] else .fail .endOfHexEscape

def readStringBytes (mode : StringMode) (position : Position) :
    List UInt8 → Except Fault (List UInt8 × Cursor)
  | [] => .error ⟨[], .endInString, position⟩
  | byte :: rest =>
    let position := position.after byte
    match stringStep byte mode with
    | .done => .ok ([], ⟨rest, position⟩)
    | .fail problem => .error ⟨[], problem, position⟩
    | .go mode bytes =>
      match readStringBytes mode position rest with
      | .error f => .error f
      | .ok (more, behind) => .ok (bytes ++ more, behind)

/-- How many bytes of well-formed UTF-8 a character has that starts these bytes; none if no
character does. -/
def characterLength? : List UInt8 → Option Nat
  | [] => none
  | a :: rest =>
    let isTail (low high : UInt8) (byte : Option UInt8) : Bool :=
      match byte with
      | some byte => low ≤ byte && byte ≤ high
      | none => false
    let tail1 := isTail 0x80 0xBF rest[1]?
    let tail2 := isTail 0x80 0xBF rest[2]?
    if a < 0x80 then some 1
    else if 0xC2 ≤ a && a ≤ 0xDF then if isTail 0x80 0xBF rest[0]? then some 2 else none
    else if 0xE0 ≤ a && a ≤ 0xEF then
      let low : UInt8 := if a == 0xE0 then 0xA0 else 0x80
      let high : UInt8 := if a == 0xED then 0x9F else 0xBF
      if isTail low high rest[0]? && tail1 then some 3 else none
    else if 0xF0 ≤ a && a ≤ 0xF4 then
      let low : UInt8 := if a == 0xF0 then 0x90 else 0x80
      let high : UInt8 := if a == 0xF4 then 0x8F else 0xBF
      if isTail low high rest[0]? && tail1 && tail2 then some 4 else none
    else none

/-- The position behind the first byte that cannot be part of UTF-8. `owed` bytes belong to a
character that has been checked. -/
def invalidPosition (owed : Nat) (position : Position) : List UInt8 → Position
  | [] => position
  | byte :: rest =>
    match owed with
    | owed + 1 => invalidPosition owed (position.after byte) rest
    | 0 =>
      match characterLength? (byte :: rest) with
      | none => position.after byte
      | some length => invalidPosition (length - 1) (position.after byte) rest

def readString (c : Cursor) : Except Fault (String × Cursor) :=
  match readStringBytes .plain c.position c.rest with
  | .error f => .error f
  | .ok (bytes, behind) =>
    match String.fromUTF8? bytes.toByteArray with
    | some s => .ok (s, behind)
    | none => .error ⟨[], .invalidCodePoint, invalidPosition 0 c.position c.rest⟩

def writeChar (c : Char) : List Char :=
  match c with
  | '"' => ['\\', '"']
  | '\\' => ['\\', '\\']
  | '\x08' => ['\\', 'b']
  | '\x0c' => ['\\', 'f']
  | '\n' => ['\\', 'n']
  | '\r' => ['\\', 'r']
  | '\t' => ['\\', 't']
  | c =>
    if c.toNat < 0x20 then
      ['\\', 'u', '0', '0', Nat.digitChar (c.toNat / 16), Nat.digitChar (c.toNat % 16)]
    else [c]

def writeString (s : String) : List Char := '"' :: s.toList.flatMap writeChar ++ ['"']

end LazyBinding.Json
