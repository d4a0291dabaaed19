import LazyBinding.Decimal.Binary
import LazyBinding.Value.Basic

/-!
# Views of a value

What a value holds if it is of a certain kind. No view casts, but an integer can be seen as a
double.
-/
namespace LazyBinding.Value

def asBool? : Value → Option Bool
  | .bool b => some b
  | _ => none

def asInt? : Value → Option Int64
  | .int n => some n
  | _ => none

/-- An integer is seen as the nearest double. -/
def asFloat? : Value → Option Float
  | .float x => some x
  | .int n => some (Decimal.floatOfInt n.toInt)
  | _ => none

def asText? : Value → Option String
  | .str s => some s
  | _ => none

def asArray? : Value → Option (List Value)
  | .array items => some items
  | _ => none

def asMap? : Value → Option (Dict String Value)
  | .map entries => some entries
  | _ => none

end LazyBinding.Value
