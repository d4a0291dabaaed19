import LazyBinding.ClassPath

/-!
# Commands

What the program can be asked to do.
-/
namespace LazyBinding

inductive DescriptionFormat where
  | json
  | text
  deriving DecidableEq, Repr

structure ClassSource where
  manifest : String
  cls : ClassPath
  deriving DecidableEq, Repr

structure InputSelection where
  /-- Each line of a file is a document. -/
  isByLine : Bool
  pointer : Option String
  filter : Option String
  paths : List String
  deriving DecidableEq, Repr

inductive Command where
  | describe (source : ClassSource) (format : DescriptionFormat) (out : Option String)
  /-- Reports the problems of documents; if strict, undeclared fields count as problems. -/
  | check (source : ClassSource) (inputs : InputSelection) (strict : Bool)
  /-- Writes what documents export to; if strict, they are validated first. -/
  | exportTo (source : ClassSource) (inputs : InputSelection) (strict : Bool)
      (out : Option String)
  deriving DecidableEq, Repr

inductive Invocation where
  | run (command : Command)
  | version
  | help
  | unusable
  deriving DecidableEq, Repr

end LazyBinding
