import LazyBinding.Json.Tree

/-!
# JSON pointers

A pointer such as `/items/0` names one value inside a document by the keys and indices on the way.
The empty pointer names the document itself.
-/
namespace LazyBinding.Json

def unescapePointer : List Char → List Char
  | '~' :: '1' :: rest => '/' :: unescapePointer rest
  | '~' :: '0' :: rest => '~' :: unescapePointer rest
  | c :: rest => c :: unescapePointer rest
  | [] => []

/-- The index that a step means in an array: digits without a leading zero, in a 64-bit word. -/
def pointerIndex? (step : List Char) : Option Nat :=
  if step.isEmpty || !step.all Char.isDigit then none
  else if step.head? == some '0' && step.length != 1 then none
  else
    let index := step.foldl (fun n c => 10 * n + (c.toNat - '0'.toNat)) 0
    if index < UInt64.size then some index else none

def step? (v : Json) (step : List Char) : Option Json :=
  match v with
  | .obj members => Dict.get? members (String.ofList step)
  | .arr items => (pointerIndex? step).bind fun index => items[index]?
  | _ => none

def pointer? (v : Json) (pointer : String) : Option Json :=
  match pointer.toList with
  | [] => some v
  | '/' :: rest => (rest.splitOn '/').foldlM (fun v step => v.step? (unescapePointer step)) v
  | _ => none

end LazyBinding.Json
