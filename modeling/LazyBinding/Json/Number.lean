import LazyBinding.Decimal.Layout
import LazyBinding.Json.Cursor
import LazyBinding.Json.Tree

/-!
# JSON numbers

A numeral without point and exponent that fits the 64-bit words, signed or unsigned, is kept
exactly. Minus zero and all others become doubles, in the way of whoever reads them; a number that
has no double is a fault.
-/
namespace LazyBinding.Json

structure WrittenNumber where
  negative : Bool
  whole : List Nat
  fraction : Option (List Nat)
  exponent : Option Int

namespace WrittenNumber

def coefficient (w : WrittenNumber) : Nat := Decimal.digitsValue (w.whole ++ w.fraction.getD [])

def numeral (w : WrittenNumber) : Decimal.Numeral :=
  ⟨w.coefficient, w.exponent.getD 0 - (w.fraction.getD []).length⟩

end WrittenNumber

/-- How written numbers become doubles; one that is out of range has none. -/
class DoubleReader where
  double? : WrittenNumber → Option Float

/-- Takes the nearest double. -/
@[reducible]
def nearestDoubles : DoubleReader where
  double? w := if w.numeral.overflows then none else some (w.numeral.toFloat w.negative)

def isDigitByte (byte : UInt8) : Bool := 0x30 ≤ byte && byte ≤ 0x39

def takeDigits (c : Cursor) : List Nat × Cursor :=
  let digits := c.rest.takeWhile isDigitByte
  (digits.map fun d => d.toNat - 0x30, c.skip digits.length)

def readWhole (c : Cursor) : Except Fault (List Nat × Cursor) :=
  match c.peek? with
  | none => .error (c.fault .endInValue)
  | some byte =>
    if byte == 0x30 then
      let behind := c.advance
      match behind.peek? with
      | some next =>
        if isDigitByte next then .error (behind.faultAhead .invalidNumber) else .ok ([0], behind)
      | none => .ok ([0], behind)
    else if isDigitByte byte then .ok (takeDigits c)
    else .error (c.faultAhead .invalidNumber)

def readFraction (c : Cursor) : Except Fault (Option (List Nat) × Cursor) :=
  if c.peek? == some 0x2E then
    let (digits, behind) := takeDigits c.advance
    if !digits.isEmpty then .ok (some digits, behind)
    else if behind.peek?.isNone then .error (behind.fault .endInValue)
    else .error (behind.faultAhead .invalidNumber)
  else .ok (none, c)

/-- The largest exponent that is read; a greater one overflows before its digits end. -/
def maxExponent : Nat := 2147483647

def readExponentDigits (value : Nat) (position : Position) :
    List UInt8 → Nat × Bool × Cursor
  | [] => (value, false, ⟨[], position⟩)
  | byte :: rest =>
    if isDigitByte byte then
      let next := 10 * value + (byte.toNat - 0x30)
      if maxExponent < next then (next, true, ⟨rest, position.after byte⟩)
      else readExponentDigits next (position.after byte) rest
    else (value, false, ⟨byte :: rest, position⟩)

/-- An exponent part; without one nothing is read. An exponent that is too large is a fault, unless
it is negative or the digits before it are all zero. -/
def readExponent (isZero : Bool) (c : Cursor) : Except Fault (Option Int × Cursor) :=
  if c.peek? == some 0x65 || c.peek? == some 0x45 then
    let c := c.advance
    let negative := c.peek? == some 0x2D
    let c := if negative || c.peek? == some 0x2B then c.advance else c
    match c.peek? with
    | none => .error (c.fault .endInValue)
    | some byte =>
      if isDigitByte byte then
        let (value, overflow, behind) := readExponentDigits 0 c.position c.rest
        if overflow then
          if !isZero && !negative then .error (behind.fault .numberOutOfRange)
          else .ok (some (-(value : Int)), (takeDigits behind).2)
        else .ok (some (if negative then -(value : Int) else value), behind)
      else .error (c.faultAhead .invalidNumber)
  else .ok (none, c)

def wholeNumber? (negative : Bool) (magnitude : Nat) : Option Int :=
  if negative then
    if magnitude ≠ 0 ∧ Int64.minValue.toInt ≤ -(magnitude : Int) then some (-(magnitude : Int))
    else none
  else if magnitude < UInt64.size then some magnitude else none

def readNumber [DoubleReader] (negative : Bool) (c : Cursor) : Except Fault (Json × Cursor) := do
  let (whole, c) ← readWhole c
  let (fraction, c) ← readFraction c
  let coefficient := Decimal.digitsValue (whole ++ fraction.getD [])
  let (exponent, c) ← readExponent (coefficient == 0) c
  let exact :=
    if fraction.isNone && exponent.isNone then wholeNumber? negative coefficient else none
  match exact with
  | some n => return (.int n, c)
  | none =>
    match DoubleReader.double? ⟨negative, whole, fraction, exponent⟩ with
    | some x => return (.float x, c)
    | none => throw (c.fault .numberOutOfRange)

/-- How JSON writes a double: positional for decimal exponents from -5 to 15 and always with a
point there. What is not finite has no number. -/
def numberLayout : Decimal.Layout where
  positional := some (-5, 15)
  keepPoint := true
  tie := .even
  infinity := "null"
  negativeInfinity := "null"
  nan := "null"

end LazyBinding.Json
