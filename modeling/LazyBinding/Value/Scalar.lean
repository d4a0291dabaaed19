import LazyBinding.Decimal.Layout
import LazyBinding.Text.Blank
import LazyBinding.Value.Basic

/-!
# Scalar casts

Every scalar casts to every primitive. A text casts to a number by the longest numeral in front of
it, after blanks; a text without one counts as zero. Numbers beyond the 64-bit integers go to the
nearest of them.
-/
namespace LazyBinding

/-- A double cut off toward zero; not-a-number counts as zero. -/
def intOfFloat (x : Float) : Int64 :=
  match Decimal.Parts.ofFloat x with
  | .nan => 0
  | .infinite negative => if negative then Int64.minValue else Int64.maxValue
  | parts => Int64.ofIntClamp (parts.truncate?.getD 0)

/-- How a cast writes a double: always positional, with no point in a whole number. -/
def castLayout : Decimal.Layout where
  positional := none
  keepPoint := false
  tie := .up
  infinity := "inf"
  negativeInfinity := "-inf"
  nan := "NaN"

structure LeadingNumeral where
  negative : Bool
  numeral : Decimal.Numeral
  isWhole : Bool
  deriving DecidableEq, Repr

namespace LeadingNumeral

def digitsOf (cs : List Char) : List Nat := cs.map fun c => c.toNat - '0'.toNat

def takeSign : List Char → Bool × List Char
  | '-' :: rest => (true, rest)
  | '+' :: rest => (false, rest)
  | rest => (false, rest)

def exponent? : List Char → Option Int
  | c :: rest =>
    if c == 'e' || c == 'E' then
      let (negative, rest) := takeSign rest
      match rest.takeWhile Char.isDigit with
      | [] => none
      | digits =>
        let n : Int := Decimal.digitsValue (digitsOf digits)
        some (if negative then -n else n)
    else none
  | [] => none

/-- The longest numeral in front of a text: a sign, digits with a point before, among or after
them, and an exponent; sign, point and exponent may be missing. -/
def of? (cs : List Char) : Option LeadingNumeral :=
  let (negative, rest) := takeSign cs
  let whole := rest.takeWhile Char.isDigit
  let (hasPoint, fraction, rest) :=
    match rest.dropWhile Char.isDigit with
    | '.' :: rest => (true, rest.takeWhile Char.isDigit, rest.dropWhile Char.isDigit)
    | rest => (false, [], rest)
  if whole.isEmpty && fraction.isEmpty then none
  else
    let exponent := exponent? rest
    some {
      negative
      numeral := {
        coefficient := Decimal.digitsValue (digitsOf (whole ++ fraction))
        exponent := exponent.getD 0 - fraction.length }
      isWhole := !hasPoint && exponent.isNone }

def toFloat (n : LeadingNumeral) : Float := n.numeral.toFloat n.negative

def wholeValue (n : LeadingNumeral) : Int :=
  if n.negative then -(n.numeral.coefficient : Int) else n.numeral.coefficient

/-- A whole numeral that fits the 64-bit integers is taken exactly, any other one through its
double. -/
def toInt64 (n : LeadingNumeral) : Int64 :=
  if n.isWhole ∧ Int64.minValue.toInt ≤ n.wholeValue ∧ n.wholeValue ≤ Int64.maxValue.toInt then
    Int64.ofInt n.wholeValue
  else intOfFloat n.toFloat

def ofText? (s : String) : Option LeadingNumeral := of? (Text.trimStart s.toList)

end LeadingNumeral

namespace Value

def castInt : Value → Int64
  | .bool b => if b then 1 else 0
  | .int n => n
  | .float x => intOfFloat x
  | .str s => ((LeadingNumeral.ofText? s).map LeadingNumeral.toInt64).getD 0
  | _ => 0

def castFloat : Value → Float
  | .bool b => if b then 1 else 0
  | .int n => Decimal.floatOfInt n.toInt
  | .float x => x
  | .str s => ((LeadingNumeral.ofText? s).map LeadingNumeral.toFloat).getD 0
  | _ => 0

def castString : Value → String
  | .bool b => if b then "1" else ""
  | .int n => toString n.toInt
  | .float x => castLayout.write x
  | .str s => s
  | _ => ""

def cast? (v : Value) (kind : Primitive) : Option Value :=
  if v.isScalar then
    some (match kind with
      | .bool => .bool v.isTruthy
      | .int => .int v.castInt
      | .float => .float v.castFloat
      | .string => .str v.castString)
  else none

end Value

end LazyBinding
