import LazyBinding.Object

/-!
# Places

A place is an object inside another one, given by the steps that lead to it. Each step reads a
field on the way, so it may fail or change data; an operation at a place changes the nested object
where it stands.
-/
namespace LazyBinding

inductive PlaceStep where
  | field (name : String)
  /-- The object at some indices of the arrays in a field. -/
  | item (name : String) (indices : List Nat)
  deriving DecidableEq, Repr

abbrev Place := List PlaceStep

namespace Value

def nestedObject? : List Nat → Value → Option BoundObject
  | [], v => v.asObject?
  | i :: rest, .array items => items[i]?.bind (nestedObject? rest)
  | _ :: _, _ => none

/-- Puts a value at some indices of a nested array; other values stay as they are. -/
def putNested (v : Value) : List Nat → Value → Value
  | [], _ => v
  | i :: rest, .array items => .array (items.modify i (putNested v rest))
  | _ :: _, other => other

end Value

namespace BoundObject

def enter {α : Type} (name : String) (indices : List Nat)
    (inside : BoundObject → Session → Effect (Option α)) (read : Effect Value) :
    Effect (Option α) :=
  match read.result with
  | .error e => ⟨read.session, read.object, .error e⟩
  | .ok v =>
    match v.nestedObject? indices with
    | none => ⟨read.session, read.object, .ok none⟩
    | some nested =>
      let inner := inside nested read.session
      let v := Value.putNested (.ofObject inner.object) indices v
      ⟨inner.session, read.object.put name v, inner.result⟩

/-- Carries out an operation at a place. Where there is no object the result is none. -/
def within {α : Type} (operation : BoundObject → Session → Effect α) :
    Place → BoundObject → Session → Effect (Option α)
  | [], o, s =>
    let effect := operation o s
    ⟨effect.session, effect.object, effect.result.map some⟩
  | .field name :: rest, o, s => enter name [] (within operation rest) (o.get name s)
  | .item name indices :: rest, o, s =>
    enter name indices (within operation rest) (o.openSlot name s)

end BoundObject

end LazyBinding
