import LazyBinding.CommandLine.Document
import LazyBinding.Object

/-!
# Checking documents

A document passes if it can be bound to the class and all stored fields convert; a strict check also
wants them declared.
-/
namespace LazyBinding

inductive Verdict where
  | report (r : Report)
  | refusal (e : ObjectError)
  deriving DecidableEq, Repr

namespace Verdict

def fails (strict : Bool) : Verdict → Bool
  | report r => r.hasBad || (strict && r.hasProblems)
  | refusal _ => true

def details? : Verdict → Option String
  | report r => if r.hasProblems then some r.summary else none
  | refusal e => some e.message

def text (strict : Bool) (origin : String) (v : Verdict) : String :=
  let mark := if v.fails strict then "✗" else "✓"
  let details := match v.details? with
    | some details => Text.indent details ++ "\n"
    | none => ""
  mark ++ " " ++ origin ++ "\n" ++ details

/-- Checks a document against a class of the first schema. -/
def ofDocument (cls : ClassPath) (d : Document) (s : Session) : Session × Verdict :=
  match BoundObject.ofDocument 0 cls d.content s with
  | (s, .error e) => (s, refusal e)
  | (s, .ok o) =>
    let found := o.analyze true s
    match found.result with
    | .ok r => (found.session, report r)
    | .error e => (found.session, refusal e)

def ofDocuments (cls : ClassPath) : List Document → Session → List (String × Verdict)
  | [], _ => []
  | d :: rest, s =>
    let (s, v) := ofDocument cls d s
    (d.origin, v) :: ofDocuments cls rest s

end Verdict

end LazyBinding
