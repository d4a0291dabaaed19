import LazyBinding.Json.Number
import LazyBinding.Json.Quoted

/-!
# Writing JSON

Compact text has no blanks. Indented text puts every item and member on a line of its own, two
spaces further in than its container; empty containers stay short.
-/
namespace LazyBinding.Json

def commaSeparated : List (List Char) → List Char
  | [] => []
  | [piece] => piece
  | piece :: rest => piece ++ ',' :: commaSeparated rest

def newLine (level : Nat) : List Char := '\n' :: List.replicate (2 * level) ' '

mutual

def writeCompact : Json → List Char
  | .null => "null".toList
  | .bool true => "true".toList
  | .bool false => "false".toList
  | .int n => (toString n).toList
  | .float x => (numberLayout.write x).toList
  | .str s => writeString s
  | .arr items => '[' :: commaSeparated (compactItems items) ++ [']']
  | .obj members => '\x7b' :: commaSeparated (compactMembers members) ++ ['\x7d']

def compactItems : List Json → List (List Char)
  | [] => []
  | item :: rest => writeCompact item :: compactItems rest

def compactMembers : List (String × Json) → List (List Char)
  | [] => []
  | (key, value) :: rest => (writeString key ++ ':' :: writeCompact value) :: compactMembers rest

end

mutual

/-- The indented text of a value inside `level` containers. -/
def writeIndented (level : Nat) : Json → List Char
  | .arr [] => ['[', ']']
  | .arr items =>
    '[' :: commaSeparated (indentedItems (level + 1) items) ++ newLine level ++ [']']
  | .obj [] => ['\x7b', '\x7d']
  | .obj members =>
    '\x7b' :: commaSeparated (indentedMembers (level + 1) members) ++ newLine level ++ ['\x7d']
  | v => writeCompact v

def indentedItems (level : Nat) : List Json → List (List Char)
  | [] => []
  | item :: rest => (newLine level ++ writeIndented level item) :: indentedItems level rest

def indentedMembers (level : Nat) : List (String × Json) → List (List Char)
  | [] => []
  | (key, value) :: rest =>
    (newLine level ++ writeString key ++ ':' :: ' ' :: writeIndented level value) ::
      indentedMembers level rest

end

def encode (indented : Bool) (v : Json) : String :=
  String.ofList (if indented then writeIndented 0 v else writeCompact v)

end LazyBinding.Json
