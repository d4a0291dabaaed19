import LazyBinding.CommandLine.Command
import LazyBinding.Json.FilterLanguage
import LazyBinding.Json.Pointer
import LazyBinding.Object.Error
import LazyBinding.Text.Blank
import LazyBinding.Text.Lines

/-!
# Input documents

A file holds one document, or one on each line that is not blank. A pointer and then a filter may
select what is taken of a document; a filter can turn it into several.
-/
namespace LazyBinding

/-- Why a command fails; messages outermost first. -/
abbrev Failure := List String

structure Document where
  origin : String
  content : Json

namespace InputSelection

variable [Json.DoubleReader]

/-- Decodes the document that a text starts with. -/
def decode (context origin text : String) : Except Failure Document :=
  match Json.decodeFirst (.ofText text) with
  | .ok content => .ok ⟨origin, content⟩
  | .error f => .error [context ++ " (" ++ origin ++ ")", (DecodeFault.json f).message]

def decodeLines (path : String) (number : Nat) : List (List Char) → Except Failure (List Document)
  | [] => .ok []
  | line :: rest =>
    if line.all Text.isBlank then decodeLines path (number + 1) rest
    else do
      let origin := path ++ ":" ++ toString number
      let document ← decode "failed to parse JSON" origin (String.ofList line)
      return document :: (← decodeLines path (number + 1) rest)

def decodeFile (i : InputSelection) (path text : String) : Except Failure (List Document) :=
  if i.isByLine then decodeLines path 1 (Text.lines text.toList)
  else (decode "failed to parse JSON source file" path text).map ([·])

def applyPointer (i : InputSelection) (d : Document) : Except Failure Document :=
  match i.pointer with
  | none => .ok d
  | some pointer =>
    match d.content.pointer? pointer with
    | some content => .ok { d with content := content }
    | none => .error ["JSON pointer " ++ pointer ++ " matched nothing in " ++ d.origin]

def applyFilter [Json.FilterLanguage] (i : InputSelection) (d : Document) :
    Except Failure (List Document) :=
  match i.filter with
  | none => .ok [d]
  | some filter =>
    match Json.filterOutputs filter d.content with
    | .error messages => .error (("failed to apply jq expression to " ++ d.origin) :: messages)
    | .ok [content] => .ok [{ d with content := content }]
    | .ok outputs =>
      .ok (outputs.zipIdx.map fun (content, index) =>
        ⟨d.origin ++ "#" ++ toString index, content⟩)

def documents [Json.FilterLanguage] (i : InputSelection) (path text : String) :
    Except Failure (List Document) := do
  let decoded ← i.decodeFile path text
  let selected ← decoded.mapM fun d => do i.applyFilter (← i.applyPointer d)
  return selected.flatten

end InputSelection

end LazyBinding
