/-!
# File name patterns

A pattern matches names character by character: `?` stands for any character, `*` for any run of
characters, and brackets for one character of a set, or outside it behind `!`. Two stars may only
stand alone between slashes and mean any number of directories. Braces and dots are ordinary.
-/
namespace LazyBinding.Glob

inductive CharRange where
  | single (c : Char)
  | range (first last : Char)
  deriving DecidableEq, Repr

def CharRange.mem : CharRange → Char → Bool
  | single d, c => c == d
  | range first last, c => first ≤ c && c ≤ last

inductive Piece where
  | char (c : Char)
  | anyChar
  | anyRun
  | anyDepth
  | within (set : List CharRange)
  | outside (set : List CharRange)
  deriving DecidableEq, Repr

inductive Problem where
  | tooManyStars
  | lopsidedStars
  | badSet
  deriving DecidableEq, Repr

def Problem.message : Problem → String
  | tooManyStars => "wildcards are either regular `*` or recursive `**`"
  | lopsidedStars => "recursive wildcards must form a single path component"
  | badSet => "invalid range pattern"

structure Fault where
  position : Nat
  problem : Problem
  deriving DecidableEq, Repr

def Fault.message (f : Fault) : String :=
  "Pattern syntax error near position " ++ toString f.position ++ ": " ++ f.problem.message

structure Pattern where
  pieces : List Piece
  deriving DecidableEq, Repr

/-- The set that the text between brackets means; a hyphen between two characters makes a range. -/
def readSet : List Char → List CharRange
  | a :: '-' :: b :: rest => .range a b :: readSet rest
  | a :: rest => .single a :: readSet rest
  | [] => []

/-- The text up to the closing bracket, which may not come first, and the text behind it. -/
def readBrackets? : List Char → Option (List Char × List Char)
  | [] => none
  | first :: rest =>
    match rest.dropWhile (· != ']') with
    | [] => none
    | _ :: behind => some (first :: rest.takeWhile (· != ']'), behind)

def readDoubleStar (position : Nat) (before : Option Char) (rest : List Char) :
    Except Fault (List Char) :=
  if before.all (· == '/') then
    match rest with
    | [] => .ok []
    | '/' :: behind => .ok behind
    | _ => .error ⟨position + 2, .lopsidedStars⟩
  else .error ⟨position - 1, .lopsidedStars⟩

/-- Reads the pieces of a pattern of which `position` characters have been read, the last one being
`before`. Each piece takes at least one character. -/
def readPieces : (steps position : Nat) → (before : Option Char) → List Char →
    Except Fault (List Piece)
  | 0, _, _, _ => .ok []
  | _, _, _, [] => .ok []
  | steps + 1, position, before, c :: rest =>
    let length := rest.length + 1
    /- Goes on behind a piece with the characters that are left. -/
    let next (piece : Piece) (last : Char) (left : List Char) : Except Fault (List Piece) :=
      (readPieces steps (position + (length - left.length)) (some last) left).map (piece :: ·)
    match c with
    | '?' => next .anyChar '?' rest
    | '*' =>
      match rest with
      | '*' :: '*' :: _ => .error ⟨position + 2, .tooManyStars⟩
      | '*' :: rest =>
        match readDoubleStar position before rest with
        | .ok left => next .anyDepth '/' left
        | .error f => .error f
      | rest => next .anyRun '*' rest
    | '[' =>
      let read :=
        match rest with
        | '!' :: rest => (readBrackets? rest).map fun (set, left) => (.outside (readSet set), left)
        | rest => (readBrackets? rest).map fun (set, left) => (Piece.within (readSet set), left)
      match read with
      | some (piece, left) => next piece ']' left
      | none => .error ⟨position, .badSet⟩
    | c => next (.char c) c rest

namespace Pattern

def ofText (text : String) : Except Fault Pattern :=
  (readPieces (text.length + 1) 0 none text.toList).map Pattern.mk

def isPattern (text : String) : Bool := text.toList.any ['*', '?', '[', '\x7b'].contains

def isAnyDepth (p : Pattern) : Bool := p.pieces.contains .anyDepth

def literal? (p : Pattern) : Option String :=
  let chars := p.pieces.mapM fun
    | .char c => some c
    | _ => none
  chars.map String.ofList

def startsWithDot (p : Pattern) : Bool := p.pieces.head? == some (.char '.')

end Pattern

def anySuffix (holds : List Char → Bool) : List Char → Bool
  | [] => holds []
  | c :: rest => holds (c :: rest) || anySuffix holds rest

def Piece.accepts (c : Char) : Piece → Bool
  | char d => c == d
  | anyChar => true
  | within set => set.any (·.mem c)
  | outside set => !set.any (·.mem c)
  | anyRun | anyDepth => false

def matchPieces : List Piece → List Char → Bool
  | [], cs => cs.isEmpty
  | .anyRun :: rest, cs | .anyDepth :: rest, cs => anySuffix (matchPieces rest) cs
  | _ :: _, [] => false
  | piece :: rest, c :: cs => piece.accepts c && matchPieces rest cs

def Pattern.matchesName (p : Pattern) (name : String) : Bool := matchPieces p.pieces name.toList

end LazyBinding.Glob
