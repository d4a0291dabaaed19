/-!
# Class paths

A class is named by a dotted path such as `App.Models.User`. A well-formed path has one or more
segments, each a letter or underscore followed by letters, digits and underscores of ASCII.
-/
namespace LazyBinding

/-- A dotted class path; any text is one, well-formed or not. -/
structure ClassPath where
  text : String
  deriving DecidableEq, Repr, Inhabited

namespace ClassPath

def root : ClassPath := ⟨"LazyObject"⟩

def isRoot (c : ClassPath) : Bool := c == root

instance : ToString ClassPath := ⟨text⟩

instance : LT ClassPath := ⟨fun a b => a.text < b.text⟩

instance : DecidableLT ClassPath := fun a b => inferInstanceAs (Decidable (a.text < b.text))

def isSegmentStart (c : Char) : Bool := c.isAlpha || c == '_'

def isSegmentPart (c : Char) : Bool := c.isAlphanum || c == '_'

def isSegment : List Char → Bool
  | [] => false
  | c :: rest => isSegmentStart c && rest.all isSegmentPart

/-- Segments joined by single dots. -/
def isWellFormedText (cs : List Char) : Bool := (cs.splitOn '.').all isSegment

def isWellFormed (c : ClassPath) : Bool := isWellFormedText c.text.toList

def shortName (c : ClassPath) : String :=
  String.ofList (c.text.toList.reverse.takeWhile (· != '.')).reverse

def namespace? (c : ClassPath) : Option String :=
  match c.text.toList.reverse.dropWhile (· != '.') with
  | [] => none
  | _ :: before => some (String.ofList before.reverse)

def inNamespace (space name : String) : ClassPath := ⟨space ++ "." ++ name⟩

end ClassPath

end LazyBinding
