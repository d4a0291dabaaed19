/-!
# Double-precision values

A finite double is `mantissa · 2^exponent` with a sign. `nearestBits` is the other direction: the
bits of the double nearest to a fraction, where a tie goes to the even mantissa.
-/
namespace LazyBinding.Decimal

inductive Parts where
  | finite (negative : Bool) (mantissa : Nat) (exponent : Int)
  | infinite (negative : Bool)
  | nan
  deriving DecidableEq, Repr

/-- The bit above the 52 bits of the fraction; the mantissa of a normal double has it set. -/
def hiddenBit : Nat := 0x10000000000000

def signBit : Nat := 0x8000000000000000

/-- Splits the 64 bits into the sign, eleven bits of exponent and 52 bits of fraction. -/
def Parts.ofBits (bits : Nat) : Parts :=
  let fraction : Nat := bits % hiddenBit
  let biased : Nat := bits / hiddenBit % 2048
  let negative := bits / signBit % 2 == 1
  if biased = 2047 then
    if fraction = 0 then .infinite negative else .nan
  else if biased = 0 then .finite negative fraction (-1074)
  else .finite negative (fraction + hiddenBit) ((biased : Int) - 1075)

def Parts.ofFloat (x : Float) : Parts := .ofBits x.toBits.toNat

/-- The quotient of two naturals, rounded to the nearest natural; a half goes to the even one. -/
def roundHalfEven (numerator denominator : Nat) : Nat :=
  let quotient := numerator / denominator
  let twice := 2 * (numerator % denominator)
  if twice < denominator then quotient
  else if denominator < twice then quotient + 1
  else if quotient % 2 = 0 then quotient else quotient + 1

def scale (numerator denominator : Nat) (shift : Int) : Nat × Nat :=
  if 0 ≤ shift then (numerator <<< shift.toNat, denominator)
  else (numerator, denominator <<< (-shift).toNat)

def floorLog2 (numerator denominator : Nat) : Int :=
  let guess : Int := (numerator.log2 : Int) - (denominator.log2 : Int)
  let (n, d) := scale numerator denominator (-guess)
  if n < d then guess - 1 else guess

/-- The magnitude bits of infinity; those of all finite doubles are below. -/
def infinityBits : Nat := 2047 * hiddenBit

/-- The magnitude bits of the double nearest to a fraction. The exponent puts the mantissa below
`2^53`, and `2^53` itself carries into the exponent field. -/
def nearestBits (numerator denominator : Nat) : Nat :=
  if numerator = 0 then 0
  else
    let exponent : Int := max (-1074) (floorLog2 numerator denominator - 52)
    let (n, d) := scale numerator denominator (-exponent)
    min infinityBits ((exponent + 1074).toNat * hiddenBit + roundHalfEven n d)

def floatOfBits (negative : Bool) (magnitude : Nat) : Float :=
  Float.ofBits (UInt64.ofNat (if negative then magnitude + signBit else magnitude))

def floatOfInt (n : Int) : Float := floatOfBits (n < 0) (nearestBits n.natAbs 1)

/-- The integer part of a double, toward zero; infinities have none. -/
def Parts.truncate? : Parts → Option Int
  | .finite negative mantissa exponent =>
    let (n, d) := scale mantissa 1 exponent
    some (if negative then -((n / d : Nat) : Int) else (n / d : Nat))
  | _ => none

end LazyBinding.Decimal
