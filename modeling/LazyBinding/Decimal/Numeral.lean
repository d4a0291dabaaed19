import LazyBinding.Decimal.Binary

/-!
# Decimal numerals

A numeral is `coefficient · 10^exponent`. Its double is the nearest one; a magnitude beyond the
finite doubles becomes infinity.
-/
namespace LazyBinding.Decimal

structure Numeral where
  coefficient : Nat
  exponent : Int
  deriving DecidableEq, Repr

def digitCount (n : Nat) : Nat := (Nat.toDigits 10 n).length

def digitsValue (digits : List Nat) : Nat := digits.foldl (fun n d => 10 * n + d) 0

/-- The magnitude bits of the nearest double. Numerals from `10^310` on are infinite and those
below `10^-330` are zero, whatever their digits. -/
def Numeral.bits (n : Numeral) : Nat :=
  if n.coefficient = 0 then 0
  else
    let magnitude : Int := digitCount n.coefficient + n.exponent
    if 310 < magnitude then infinityBits
    else if magnitude < -330 then 0
    else if 0 ≤ n.exponent then nearestBits (n.coefficient * Nat.pow 10 n.exponent.toNat) 1
    else nearestBits n.coefficient (Nat.pow 10 (-n.exponent).toNat)

def Numeral.toFloat (negative : Bool) (n : Numeral) : Float := floatOfBits negative n.bits

def Numeral.overflows (n : Numeral) : Bool := n.bits == infinityBits

end LazyBinding.Decimal
