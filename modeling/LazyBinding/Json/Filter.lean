import LazyBinding.Json.Tree

/-!
# A language of filters

One language that documents can be filtered in: the paths, lists and constructors of jq, without its
operators and functions. A filter walks down by keys, indices and slices, combines the outputs of
other filters, and builds arrays and objects. An output may be a failure; a question mark drops
failures.
-/
namespace LazyBinding.Json

/-- A filter. A filter in the place of a key or a bound sees the same document as the whole. -/
inductive Filter where
  | identity
  | descendants
  | literal (v : Json)
  | word (name : String)
  | negate (f : Filter)
  | index (base key : Filter) (forgiving : Bool)
  | each (base : Filter) (forgiving : Bool)
  | slice (base low high : Filter) (forgiving : Bool)
  | pipe (first second : Filter)
  | both (first second : Filter)
  | collect (f : Filter)
  | withMember (rest key value : Filter)
  | attempt (f : Filter)

namespace Filter

/-- What a filter puts out; none is a failure. -/
abbrev Outputs := List (Option Json)

def andThen (outputs : Outputs) (f : Json → Outputs) : Outputs :=
  outputs.flatMap fun
    | some v => f v
    | none => [none]

def single (forgiving : Bool) : Option Json → Outputs
  | some v => [some v]
  | none => if forgiving then [] else [none]

mutual

def allValues : Json → List Json
  | .arr items => .arr items :: allItems items
  | .obj members => .obj members :: allMembers members
  | v => [v]

def allItems : List Json → List Json
  | [] => []
  | v :: rest => allValues v ++ allItems rest

def allMembers : List (String × Json) → List Json
  | [] => []
  | (_, v) :: rest => allValues v ++ allMembers rest

end

def position? (length : Nat) (n : Int) : Option Nat :=
  if 0 ≤ n then some n.toNat
  else if -n ≤ length then some (length + n).toNat
  else none

def lookup? : Json → Json → Option Json
  | .arr items, .int n =>
    some (((position? items.length n).bind fun i => items[i]?).getD .null)
  | .obj members, .str key => some ((Dict.get? members key).getD .null)
  | _, _ => none

def parts? : Json → Option (List Json)
  | .arr items => some items
  | .obj members => some (Dict.values members)
  | _ => none

def bound? : Json → Option (Option Int)
  | .null => some none
  | .int n => some (some n)
  | _ => none

/-- What lies between two bounds, each at most the length and at least zero. -/
def between {α : Type} (items : List α) (low high : Option Int) : List α :=
  let place (n : Int) := min ((position? items.length n).getD 0) items.length
  let first := (low.map place).getD 0
  let last := (high.map place).getD items.length
  (items.drop first).take (last - first)

def slice? (v low high : Json) : Option Json :=
  match v, bound? low, bound? high with
  | .arr items, some low, some high => some (.arr (between items low high))
  | .str s, some low, some high => some (.str (String.ofList (between s.toList low high)))
  | _, _, _ => none

def negative? : Json → Option Json
  | .int n => some (.int (-n))
  | .float x => some (.float (-x))
  | _ => none

def wordOutputs? (name : String) : Option Outputs :=
  match name with
  | "null" => some [some .null]
  | "true" => some [some (.bool true)]
  | "false" => some [some (.bool false)]
  | "empty" => some []
  | _ => none

def addMember? : Json → Json → Json → Option Json
  | .obj members, .str key, v => some (.obj (Dict.put members key v))
  | _, _, _ => none

/-- What a filter puts out for a document. Of two filters whose outputs are combined the first one
varies most slowly. -/
def run : Filter → Json → Outputs
  | identity, v => [some v]
  | descendants, v => (allValues v).map some
  | literal w, _ => [some w]
  | word name, _ => (wordOutputs? name).getD [none]
  | negate f, v => (f.run v).map fun y => y.bind negative?
  | index base key forgiving, v =>
    andThen (base.run v) fun y =>
      andThen (key.run v) fun k => single forgiving (lookup? y k)
  | each base forgiving, v =>
    andThen (base.run v) fun y =>
      match parts? y with
      | some parts => parts.map some
      | none => single forgiving none
  | slice base low high forgiving, v =>
    andThen (base.run v) fun y =>
      andThen (low.run v) fun l =>
        andThen (high.run v) fun h => single forgiving (slice? y l h)
  | pipe first second, v => andThen (first.run v) second.run
  | both first second, v => first.run v ++ second.run v
  | collect f, v => [((f.run v).mapM id).map .arr]
  | withMember rest key value, v =>
    andThen (rest.run v) fun o =>
      andThen (key.run v) fun k =>
        andThen (value.run v) fun w => [addMember? o k w]
  | attempt f, v => (f.run v).filter Option.isSome

def isDefined : Filter → Bool
  | identity | descendants | literal _ => true
  | word name => (wordOutputs? name).isSome
  | negate f | collect f | attempt f | each f _ => f.isDefined
  | index f g _ | pipe f g | both f g => f.isDefined && g.isDefined
  | slice f g h _ | withMember f g h => f.isDefined && g.isDefined && h.isDefined

end Filter

end LazyBinding.Json
