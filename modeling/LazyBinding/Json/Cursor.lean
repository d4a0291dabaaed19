import LazyBinding.Json.Fault

/-!
# Reading bytes

A cursor is the part of a text that is still to be read, with the position of its start.
-/
namespace LazyBinding.Json

structure Cursor where
  rest : List UInt8
  position : Position

namespace Cursor

def ofBytes (bytes : List UInt8) : Cursor := ⟨bytes, 1, 0⟩

def ofText (text : String) : Cursor := ofBytes text.toUTF8.data.toList

def peek? (c : Cursor) : Option UInt8 := c.rest.head?

/-- The cursor behind the next byte; at the end it stays. -/
def advance (c : Cursor) : Cursor :=
  match c.rest with
  | [] => c
  | byte :: rest => ⟨rest, c.position.after byte⟩

def skip (c : Cursor) (count : Nat) : Cursor :=
  ⟨c.rest.drop count, c.position.line, c.position.column + count⟩

def fault (c : Cursor) (problem : Problem) : Fault := ⟨[], problem, c.position⟩

/-- A fault whose place includes the next byte. -/
def faultAhead (c : Cursor) (problem : Problem) : Fault := c.advance.fault problem

def isBlankByte (byte : UInt8) : Bool :=
  byte == 0x20 || byte == 0x0A || byte == 0x0D || byte == 0x09

def skipBlanksOf (position : Position) : List UInt8 → Cursor
  | [] => ⟨[], position⟩
  | byte :: rest =>
    if isBlankByte byte then skipBlanksOf (position.after byte) rest else ⟨byte :: rest, position⟩

def skipBlanks (c : Cursor) : Cursor := skipBlanksOf c.position c.rest

end Cursor

end LazyBinding.Json
