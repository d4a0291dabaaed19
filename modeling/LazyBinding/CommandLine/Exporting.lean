import LazyBinding.CommandLine.Document
import LazyBinding.Object.Encoding

/-!
# Exporting documents

Each document is bound to the class, exported and encoded. One document is written as it is, several
as an array.
-/
namespace LazyBinding

namespace Document

/-- What a document exports to through a class of the first schema. -/
def export? (cls : ClassPath) (d : Document) (s : Session) : Session × Except Failure Json :=
  match BoundObject.ofDocument 0 cls d.content s with
  | (s, .error e) => (s, .error (("failed to bind " ++ d.origin) :: e.messages))
  | (s, .ok o) =>
    match o.exported s with
    | (s, .error e) => (s, .error e.messages)
    | (s, .ok v) =>
      match v.toJson s with
      | (s, .error e) => (s, .error (("failed to export " ++ d.origin) :: e.messages))
      | (s, .ok document) => (s, .ok document)

def exportAll (cls : ClassPath) : List Document → Session → Except Failure (List Json)
  | [], _ => .ok []
  | d :: rest, s =>
    match d.export? cls s with
    | (_, .error failure) => .error failure
    | (s, .ok document) => (exportAll cls rest s).map (document :: ·)

def combine : List Json → Except Failure Json
  | [] => .error ["no input documents"]
  | [document] => .ok document
  | documents => .ok (.arr documents)

end Document

end LazyBinding
