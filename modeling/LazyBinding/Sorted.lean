/-!
# Sorted dictionaries

Entries ascend strictly by key.
-/
namespace LazyBinding

/-- Entries in ascending order of their keys. -/
abbrev Sorted (κ α : Type) := List (κ × α)

namespace Sorted

variable {κ α : Type} [DecidableEq κ] [LT κ] [DecidableLT κ]

def update (entries : Sorted κ α) (k : κ) (make : Option α → α) : Sorted κ α :=
  match entries with
  | [] => [(k, make none)]
  | (k', a) :: rest =>
    if k = k' then (k, make (some a)) :: rest
    else if k < k' then (k, make none) :: (k', a) :: rest
    else (k', a) :: update rest k make

def put (entries : Sorted κ α) (k : κ) (a : α) : Sorted κ α := update entries k fun _ => a

def ofList (entries : List (κ × α)) : Sorted κ α :=
  entries.foldl (fun sorted entry => put sorted entry.1 entry.2) []

def insert (members : List κ) (k : κ) : List κ :=
  match members with
  | [] => [k]
  | k' :: rest =>
    if k = k' then k' :: rest
    else if k < k' then k :: k' :: rest
    else k' :: insert rest k

def setOfList (members : List κ) : List κ := members.foldl insert []

end Sorted

end LazyBinding
