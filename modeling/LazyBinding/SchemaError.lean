import LazyBinding.ClassPath
import LazyBinding.Text.Quoted

/-!
# Schema errors

Why a registry refuses a class, a type definition does not parse, or a class does not compile. A
wrapping error carries the inner one, so that the first problem stays visible.
-/
namespace LazyBinding

inductive ClassFault where
  | invalidPath
  | alreadyRegistered
  | notRegistered
  | inheritanceLoop
  | unknownParent (reference : String)
  | emptyFieldName
  | unknownImport (reference : String)
  /-- The class is not in the cache although its compilation ended well. -/
  | missingAfterCompilation
  /-- An imported class is not in the cache although its compilation ended well. -/
  | missingAfterImport
  | manifest (path problem : String)
  deriving DecidableEq, Repr

def ClassFault.message : ClassFault → String
  | invalidPath => "invalid class path"
  | alreadyRegistered => "class is already registered"
  | notRegistered => "class is not registered"
  | inheritanceLoop => "inheritance chain loops back on itself"
  | unknownParent reference => "unknown parent class " ++ Text.quoted reference
  | emptyFieldName => "field names must not be empty"
  | unknownImport reference =>
    "import " ++ Text.quoted reference ++ " does not name a registered schema class"
  | missingAfterCompilation => "class missing from cache after compilation"
  | missingAfterImport => "imported class missing from cache"
  | manifest path problem => "at JSON path " ++ path ++ " → " ++ problem

inductive DefinitionFault where
  | malformedBrackets
  | notAType
  | unknownClass (reference : String)
  deriving DecidableEq, Repr

def DefinitionFault.message : DefinitionFault → String
  | malformedBrackets => "malformed array brackets"
  | notAType => "not a primitive type or class path"
  | unknownClass reference =>
    "class " ++ Text.quoted reference ++ " is not a registered schema class"

structure DefinitionError where
  definition : String
  fault : DefinitionFault
  deriving DecidableEq, Repr

def DefinitionError.message (e : DefinitionError) : String :=
  "invalid type definition " ++ Text.quoted e.definition ++ ": " ++ e.fault.message

inductive SchemaError where
  | badSchema (cls : ClassPath) (fault : ClassFault)
  | badDefinition (cls : ClassPath) (field definition : String) (fault : DefinitionFault)
  | circularReference (cls reference : ClassPath)
  | importFailed (cls target : ClassPath) (source : SchemaError)
  | propertyClassFailed (cls : ClassPath) (source : SchemaError)
  deriving DecidableEq, Repr

namespace SchemaError

def message : SchemaError → String
  | badSchema cls fault => "bad schema for class " ++ cls.text ++ ": " ++ fault.message
  | badDefinition cls field definition fault =>
    "bad definition for " ++ cls.text ++ "::" ++ field ++ " (" ++ Text.quoted definition ++ "): " ++
      fault.message
  | circularReference cls reference =>
    "circular reference between " ++ cls.text ++ " and " ++ reference.text
  | importFailed cls target source =>
    "class " ++ cls.text ++ " failed to import " ++ target.text ++ ": " ++ source.message
  | propertyClassFailed cls source =>
    "class " ++ cls.text ++ " references a class that failed to compile: " ++ source.message

/-- The problem inside all wrappers. -/
def rootCause : SchemaError → SchemaError
  | importFailed _ _ source => source.rootCause
  | propertyClassFailed _ source => source.rootCause
  | e => e

def messages : SchemaError → List String
  | importFailed cls target source => (importFailed cls target source).message :: source.messages
  | propertyClassFailed cls source => (propertyClassFailed cls source).message :: source.messages
  | e => [e.message]

end SchemaError

end LazyBinding
