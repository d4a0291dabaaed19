import LazyBinding.ClassPath
import LazyBinding.Sorted
import LazyBinding.Text.Quoted

/-!
# Reports

What an analysis finds, grouped by the class that owns the field and sorted: fields that the data
has but the class does not declare, and fields whose data does not convert, with the reason. A
field is given by its path from the analysed object.
-/
namespace LazyBinding

structure Report where
  /-- Fields that are in the data but not declared. -/
  missing : Sorted ClassPath (List String)
  /-- Fields whose data does not convert, with the message. -/
  bad : Sorted ClassPath (Sorted String String)
  deriving DecidableEq, Repr

namespace Report

def empty : Report := ⟨[], []⟩

def addMissing (r : Report) (cls : ClassPath) (path : String) : Report :=
  { r with missing := Sorted.update r.missing cls fun paths => Sorted.insert (paths.getD []) path }

/-- A path that is bad already takes the new message. -/
def addBad (r : Report) (cls : ClassPath) (path message : String) : Report :=
  { r with bad := Sorted.update r.bad cls fun fields => Sorted.put (fields.getD []) path message }

def merge (r other : Report) : Report where
  missing := other.missing.foldl
    (fun all (cls, paths) =>
      Sorted.update all cls fun known => paths.foldl Sorted.insert (known.getD []))
    r.missing
  bad := other.bad.foldl
    (fun all (cls, fields) =>
      Sorted.update all cls fun known =>
        fields.foldl (fun fields (path, message) => Sorted.put fields path message)
          (known.getD []))
    r.bad

def hasBad (r : Report) : Bool := !r.bad.isEmpty

def hasProblems (r : Report) : Bool := !r.missing.isEmpty || !r.bad.isEmpty

def missingLine (cls : ClassPath) (paths : List String) : String :=
  "- Missing definitions in class " ++ cls.text ++ ": " ++
    ", ".intercalate (paths.map Text.quoted)

def badLine (cls : ClassPath) (path message : String) : String :=
  "- Bad definition in class " ++ cls.text ++ ", field " ++ Text.quoted path ++ ": " ++ message

def summary (r : Report) : String :=
  let missing := r.missing.map fun (cls, paths) => missingLine cls paths
  let bad := r.bad.flatMap fun (cls, fields) =>
    fields.map fun (path, message) => badLine cls path message
  "\n".intercalate (missing ++ bad)

def joinPath (before field : String) : String :=
  if before = "" then field else before ++ "." ++ field

def itemPath (before : String) (index : Nat) : String := before ++ "[" ++ toString index ++ "]"

end Report

end LazyBinding
