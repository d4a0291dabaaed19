import LazyBinding.Json.Reader

/-!
# Filters of documents

A filter turns a document into any number of documents. Its language is given from outside: it
takes the text of a filter and a document and prints what the filter puts out.
-/
namespace LazyBinding.Json

/-- A language of filters. The text of a filter may be refused with a message; otherwise its outputs
for a document are texts or failures. -/
class FilterLanguage where
  run : (filter : String) → Json → Except String (List (Except String String))

variable [DoubleReader]

def readOutput : Except String String → Except (List String) Json
  | .error failure => .error ["jq runtime error: " ++ failure]
  | .ok text =>
    (decodeWhole (.ofText text)).mapError fun f =>
      ["jq produced non-JSON output: " ++ text, f.message]

def filterOutputs [FilterLanguage] (filter : String) (v : Json) :
    Except (List String) (List Json) :=
  match FilterLanguage.run filter v with
  | .error message => .error [message]
  | .ok outputs => outputs.mapM readOutput

end LazyBinding.Json
