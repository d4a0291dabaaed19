import LazyBinding.Decimal.Shortest

/-!
# Written doubles

A layout says how the shortest digits of a double are set out: between which decimal exponents
positional notation is used, whether a whole number keeps a point, and what stands for the values
that are not finite. The decimal exponent is that of the leading digit.
-/
namespace LazyBinding.Decimal

structure Layout where
  /-- Least and greatest decimal exponent of positional notation; without bounds it is always
  used. -/
  positional : Option (Int × Int)
  /-- A whole number in positional notation ends in `.0`. -/
  keepPoint : Bool
  tie : Tie
  infinity : String
  negativeInfinity : String
  nan : String

def plainText (keepPoint : Bool) (digits : List Char) (exponent : Int) : List Char :=
  if exponent < 0 then
    ['0', '.'] ++ List.replicate ((-exponent).toNat - 1) '0' ++ digits
  else
    let whole := exponent.toNat + 1
    if digits.length ≤ whole then
      digits ++ List.replicate (whole - digits.length) '0' ++
        (if keepPoint then ['.', '0'] else [])
    else digits.take whole ++ '.' :: digits.drop whole

def exponentText (digits : List Char) (exponent : Int) : List Char :=
  let fraction := digits.drop 1
  digits.take 1 ++ (if fraction.isEmpty then [] else '.' :: fraction) ++
    ['e', if exponent < 0 then '-' else '+'] ++ Nat.toDigits 10 exponent.natAbs

/-- A shortest numeral without its trailing zeros. -/
def significantDigits (n : Numeral) : List Char :=
  ((Nat.toDigits 10 n.coefficient).reverse.dropWhile (· == '0')).reverse

def Layout.magnitude (layout : Layout) (mantissa : Nat) (exponent : Int) : List Char :=
  if mantissa = 0 then plainText layout.keepPoint ['0'] 0
  else
    let numeral := shortest layout.tie mantissa exponent
    let leading : Int := numeral.exponent + (digitCount numeral.coefficient : Int) - 1
    let digits := significantDigits numeral
    let isPositional :=
      match layout.positional with
      | none => true
      | some (least, greatest) => least ≤ leading && leading ≤ greatest
    if isPositional then plainText layout.keepPoint digits leading
    else exponentText digits leading

def Layout.write (layout : Layout) (x : Float) : String :=
  match Parts.ofFloat x with
  | .nan => layout.nan
  | .infinite negative => if negative then layout.negativeInfinity else layout.infinity
  | .finite negative mantissa exponent =>
    let text := layout.magnitude mantissa exponent
    String.ofList (if negative then '-' :: text else text)

end LazyBinding.Decimal
