import LazyBinding.Json.Fault
import LazyBinding.Report
import LazyBinding.SchemaError
import LazyBinding.Value.Basic

/-!
# Errors of objects

Why a value does not convert to the type of its field, and what else can go wrong with an object.
A value that had to be built carries the error of its construction.
-/
namespace LazyBinding

inductive Expectation where
  | arrayAt (level : Nat)
  | scalarInside (type : FieldType)
  | primitive (kind : Primitive)
  | objectOf (cls : ClassPath)
  deriving DecidableEq, Repr

def Expectation.text : Expectation → String
  | arrayAt level => "an array at level " ++ toString level
  | scalarInside type => "a scalar or null inside " ++ type.text
  | primitive kind => kind.keyword
  | objectOf cls => "an object of class " ++ cls.text

inductive Occupant where
  | value (kind : Kind)
  | instanceOf (cls : ClassPath)
  deriving DecidableEq, Repr

def Occupant.text : Occupant → String
  | value kind => kind.name
  | instanceOf cls => "instance of " ++ cls.text

inductive DecodeFault where
  | json (f : Json.Fault)
  | notAnObject (found : Kind)
  /-- A handle stands where JSON is to be written. -/
  | handle
  deriving DecidableEq, Repr

def DecodeFault.message : DecodeFault → String
  | json f => "at JSON path " ++ f.path.text ++ " → " ++ f.message
  | notAnObject found => "at JSON path . → expected a JSON object, found " ++ found.name
  | handle => "at JSON path . → opaque handles have no JSON representation"

mutual

inductive ConversionError where
  | shapeMismatch (field : String) (expected : Expectation) (found : Kind)
  | keySequence (field : String) (level index : Nat) (key : String)
  | coercionFailure (field : String) (kind : Primitive) (found : Kind)
  | typeMismatch (field : String) (expected : ClassPath) (found : Occupant)
  | nestedConstruction (field : String) (cls : ClassPath) (source : ObjectError)
  | illegalUntyped (field : String) (found : Kind)
  deriving DecidableEq, Repr

inductive ExportFault where
  | badFields (report : Report)
  /-- A nested object cannot be exported. -/
  | field (name : String) (source : ObjectError)
  deriving DecidableEq, Repr

inductive ObjectError where
  | schema (e : SchemaError)
  | conversion (e : ConversionError)
  | noSuchField (cls : ClassPath) (field : String)
  | exportFailure (cls : ClassPath) (fault : ExportFault)
  | validation (cls : ClassPath) (report : Report)
  /-- A hook failed for a reason of its own; messages outermost first. -/
  | hookFailure (cls : ClassPath) (messages : List String)
  | unknownAccessor (cls : ClassPath) (name : String)
  | badArguments (accessor : String) (expected got : Nat)
  | decode (fault : DecodeFault)
  /-- Hooks keep creating deeper data without end. -/
  | endless (cls : ClassPath)
  deriving DecidableEq, Repr

end

mutual

def ConversionError.message : ConversionError → String
  | .shapeMismatch field expected found =>
    "field " ++ Text.quoted field ++ ": expected " ++ expected.text ++ ", found " ++ found.name
  | .keySequence field level index key =>
    "field " ++ Text.quoted field ++ ": array level " ++ toString level ++ " has key " ++
      Text.quoted key ++ " where index " ++ toString index ++ " was expected"
  | .coercionFailure field kind found =>
    "field " ++ Text.quoted field ++ ": cannot coerce " ++ found.name ++ " to " ++ kind.keyword
  | .typeMismatch field expected found =>
    "field " ++ Text.quoted field ++ ": expected an instance of " ++ expected.text ++ ", found " ++
      found.text
  | .nestedConstruction field cls source =>
    "field " ++ Text.quoted field ++ ": failed to construct " ++ cls.text ++ ": " ++
      source.message
  | .illegalUntyped field found =>
    "field " ++ Text.quoted field ++ ": untyped values may not contain " ++ found.name

def ExportFault.message : ExportFault → String
  | .badFields report => report.summary
  | .field name source => "field " ++ Text.quoted name ++ ": " ++ source.message

def ObjectError.message : ObjectError → String
  | .schema e => e.message
  | .conversion e => e.message
  | .noSuchField cls field => "class " ++ cls.text ++ " has no field " ++ Text.quoted field
  | .exportFailure cls fault => "cannot export " ++ cls.text ++ ": " ++ fault.message
  | .validation cls report => cls.text ++ " failed validation:\n" ++ report.summary
  | .hookFailure cls messages =>
    "on_init hook of " ++ cls.text ++ " failed: " ++ ": ".intercalate messages
  | .unknownAccessor cls name => "class " ++ cls.text ++ " has no accessor " ++ Text.quoted name
  | .badArguments accessor expected got =>
    "accessor " ++ Text.quoted accessor ++ " takes " ++ toString expected ++
      " argument(s), got " ++ toString got
  | .decode fault => fault.message
  | .endless cls => "construction of " ++ cls.text ++ " does not end"

end

def ObjectError.messages : ObjectError → List String
  | .schema e => e.messages
  | e => [e.message]

end LazyBinding
