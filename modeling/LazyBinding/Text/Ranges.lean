/-!
# Sets of characters as ranges

A character property is stored as ascending, disjoint ranges of code points, both ends included,
and looked up by bisection.
-/
namespace LazyBinding.Text

abbrev Ranges := Array (Nat × Nat)

/-- Bisection between the positions `low` and `high`; every step halves the gap. -/
def Ranges.searchIn (ranges : Ranges) (code : Nat) : (steps low high : Nat) → Bool
  | 0, _, _ => false
  | steps + 1, low, high =>
    if high ≤ low then false
    else
      let middle := (low + high) / 2
      match ranges[middle]? with
      | none => false
      | some (first, last) =>
        if code < first then searchIn ranges code steps low middle
        else if last < code then searchIn ranges code steps (middle + 1) high
        else true

def Ranges.mem (ranges : Ranges) (code : Nat) : Bool :=
  ranges.searchIn code (ranges.size + 1) 0 ranges.size

end LazyBinding.Text
