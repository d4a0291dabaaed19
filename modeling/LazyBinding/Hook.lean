import LazyBinding.Object.Error

/-!
# Hooks

The hook of a class is code that runs on each of its objects that has just received its data. It is
a function of that object and of what its calls give back, so it may branch on data, copy it and put
another object in the place of the given one. It sees nothing else: not which classes are compiled
already, no clock and no memory of earlier runs.
-/
namespace LazyBinding

/-- How a hook fails: with an error of an object, or for a reason of its own with messages,
outermost first. -/
inductive HookStop where
  | object (e : ObjectError)
  | other (messages : List String)

/-- What code may ask of an object that it has. -/
inductive ObjectCall where
  | get (field : String)
  | openSlot (field : String)
  | set (field : String) (v : Value)
  | assign (data : List (String × Value))
  | analyze (deep : Bool)
  | validate
  | exported

@[reducible]
def ObjectCall.Result : ObjectCall → Type
  | get _ | openSlot _ | exported => Value
  | set _ _ | assign _ | validate => Unit
  | analyze _ => Report

/-- The rest of a hook: it ends and leaves an object, or makes a call and goes on with what that
gives back. -/
inductive Procedure where
  | finish (left : BoundObject) (stop : Option HookStop)
  | make (schema : SchemaId) (cls : ClassPath) (data : List (String × Value))
      (next : Except ObjectError BoundObject → Procedure)
  | call (target : BoundObject) (call : ObjectCall)
      (next : BoundObject → Except ObjectError call.Result → Procedure)
  | table (schema : SchemaId) (cls : ClassPath)
      (next : Except SchemaError FieldTable → Procedure)
  | clear (schema : SchemaId) (next : Procedure)

abbrev Hook := BoundObject → Procedure

end LazyBinding
