import LazyBinding.Accessor
import LazyBinding.Object

/-!
# Calls by accessor name

A call finds the field that the name of an accessor means and does to it what the accessor says.
-/
namespace LazyBinding.BoundObject

/-- The field that the rest of an accessor's name means: the one in snake case if the object has
it, else the first field, declared ones before stored ones, with that function case. -/
def accessorField? (o : BoundObject) (suffix : String) : Option String :=
  let guess := Accessor.snakeCase suffix
  if o.has guess then some guess
  else
    (Dict.keys o.table ++ Dict.keys o.data).find? fun field =>
      Accessor.functionCase field == suffix

def access (o : BoundObject) (a : Accessor) (field : String) (arguments : List Value)
    (s : Session) : Effect Value :=
  match a with
  | .get => o.get field s
  | .set =>
    let written := o.set field (arguments.headD .null) s
    ⟨written.session, written.object, written.result.map fun _ => .null⟩
  | .has => ⟨s, o, .ok (.bool (o.has field))⟩
  | .is => ⟨s, o, .ok (.bool (o.isTruthy field))⟩
  | .unset => ⟨s, o.unset field, .ok .null⟩

/-- Calls an accessor by name. A name that means no field is reported before a wrong number of
arguments. -/
def call (o : BoundObject) (name : String) (arguments : List Value) (s : Session) :
    Effect Value :=
  match Accessor.parse? name with
  | none => ⟨s, o, .error (.unknownAccessor o.cls name)⟩
  | some (a, suffix) =>
    match o.accessorField? suffix with
    | none => ⟨s, o, .error (.unknownAccessor o.cls name)⟩
    | some field =>
      if arguments.length = a.arity then o.access a field arguments s
      else ⟨s, o, .error (.badArguments name a.arity arguments.length)⟩

end LazyBinding.BoundObject
