import LazyBinding.Decimal.Numeral

/-!
# Shortest decimal spelling of a double

Of all numerals that read back as the same double, the one with the fewest digits, and of those the
one nearest to the double. With `n` digits only the two neighbours of the value on the grid of
`n`-digit numerals can be it.
-/
namespace LazyBinding.Decimal

inductive Tie where
  | up
  | even
  deriving DecidableEq, Repr

def decimalPoint (numerator denominator : Nat) : Int :=
  let guess : Int := (digitCount numerator : Int) - digitCount denominator
  let below :=
    if 0 ≤ guess then numerator < denominator * Nat.pow 10 guess.toNat
    else numerator * Nat.pow 10 (-guess).toNat < denominator
  if below then guess else guess + 1

def inUnits (numerator denominator : Nat) (unit : Int) : Nat × Nat :=
  if 0 ≤ unit then (numerator, denominator * Nat.pow 10 unit.toNat)
  else (numerator * Nat.pow 10 (-unit).toNat, denominator)

/-- Of the two neighbours of the fraction on the grid of `10^unit`, the nearer one that reads back
as `bits`. -/
def neighbour? (tie : Tie) (bits numerator denominator : Nat) (unit : Int) : Option Numeral :=
  let (n, d) := inUnits numerator denominator unit
  let lower : Numeral := ⟨n / d, unit⟩
  let upper : Numeral := ⟨n / d + 1, unit⟩
  let twice := 2 * (n % d)
  let upperFirst := d < twice || (d == twice && (tie == .up || n / d % 2 == 1))
  let ordered := if upperFirst then [upper, lower] else [lower, upper]
  ordered.find? fun candidate => candidate.bits == bits

/-- The shortest numeral of `mantissa · 2^exponent`. Seventeen digits always suffice; the exact
expansion closes the search. -/
def shortest (tie : Tie) (mantissa : Nat) (exponent : Int) : Numeral :=
  let (numerator, denominator) := scale mantissa 1 exponent
  let bits := nearestBits numerator denominator
  let point := decimalPoint numerator denominator
  let found := (List.range 17).findSome? fun n =>
    neighbour? tie bits numerator denominator (point - (n + 1 : Nat))
  match found with
  | some numeral => numeral
  | none =>
    if 0 ≤ exponent then ⟨mantissa <<< exponent.toNat, 0⟩
    else ⟨mantissa * Nat.pow 5 (-exponent).toNat, exponent⟩

end LazyBinding.Decimal
