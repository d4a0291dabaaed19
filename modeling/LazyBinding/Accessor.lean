import LazyBinding.Text.Lowercase

/-!
# Accessor names

A field can be addressed by the name of an accessor, such as `getUserName` for reading `user_name`:
a word for what to do, and the name of the field in function case. Snake case is the best guess at
the field of a function-case name.
-/
namespace LazyBinding

/-- What an accessor does with its field. -/
inductive Accessor where
  | get
  | set
  | has
  | is
  | unset
  deriving DecidableEq, Repr

namespace Accessor

def all : List Accessor := [get, set, has, is, unset]

def word : Accessor → String
  | get => "get"
  | set => "set"
  | has => "has"
  | is => "is"
  | unset => "unset"

def arity : Accessor → Nat
  | set => 1
  | _ => 0

def capitalizeWords (capital : Bool) : List Char → List Char
  | [] => []
  | c :: rest =>
    if c == '_' then capitalizeWords true rest
    else (if capital then c.toUpper else c) :: capitalizeWords false rest

/-- Function case: `user_name` becomes `UserName`. Underscores in front stay. -/
def functionCase (field : String) : String :=
  let cs := field.toList
  String.ofList (cs.takeWhile (· == '_') ++ capitalizeWords true (cs.dropWhile (· == '_')))

/-- A capital starts a word behind a small letter or a digit, and behind a capital if a small
letter follows. -/
def startsWord (before after : Option Char) : Bool :=
  match before with
  | none => false
  | some p => p.isLower || p.isDigit || (p.isUpper && after.any Char.isLower)

def separateWords (before : Option Char) : List Char → List Char
  | [] => []
  | c :: rest =>
    if c.isUpper then
      let small := c.toLower :: separateWords (some c) rest
      if startsWord before rest.head? then '_' :: small else small
    else c :: separateWords (some c) rest

/-- Snake case: `UserName` becomes `user_name`, `HTMLParser` becomes `html_parser`. -/
def snakeCase (name : String) : String := String.ofList (separateWords none name.toList)

def name (a : Accessor) (field : String) : String := a.word ++ functionCase field

/-- What follows the word of an accessor in a name. It must not start with a small letter, so that
`isolate` is no accessor. -/
def suffix? (a : Accessor) (name : String) : Option String :=
  if a.word.toList.isPrefixOf name.toList then
    match name.toList.drop a.word.length with
    | [] => none
    | c :: rest => if Text.isLowercase c then none else some (String.ofList (c :: rest))
  else none

def parse? (name : String) : Option (Accessor × String) :=
  all.findSome? fun a => (a.suffix? name).map fun suffix => (a, suffix)

end Accessor

end LazyBinding
