import LazyBinding.Dict

/-!
# JSON documents

A document is a tree whose objects keep the order of their members and have no key twice.
-/
namespace LazyBinding

/-- A JSON document. Whole numbers from `-2^63` to `2^64 - 1` are kept exactly. -/
inductive Json where
  | null
  | bool (b : Bool)
  | int (n : Int)
  | float (x : Float)
  | str (s : String)
  | arr (items : List Json)
  | obj (members : List (String × Json))
  deriving Inhabited

end LazyBinding
