import LazyBinding.Json.Reader
import LazyBinding.Manifest.Fault
import LazyBinding.Registry

/-!
# Manifests

A manifest is a JSON text that declares classes: each has a name, perhaps a parent, and a list of
entries, which are pairs of a field and its type, or references to classes to import. A manifest and
the entry of a class may each be written as an object or as an array of the same parts in order.

A problem of shape is noticed only when the container in which it arises is left, and is reported
at the place that the reader has come to by then.
-/
namespace LazyBinding

structure ClassEntry where
  parent : Option String
  declarations : List Declaration
  deriving DecidableEq, Repr

structure Manifest where
  classes : Dict String ClassEntry
  deriving DecidableEq, Repr

namespace Manifest

abbrev Reader (α : Type) := Json.Cursor → Except Fault (α × Json.Cursor)

def ofJson {α : Type} (result : Except Json.Fault α) : Except Fault α :=
  result.mapError Fault.ofJson

def under {α : Type} (segment : Json.Segment) (result : Except Fault α) : Except Fault α :=
  result.mapError (Fault.within segment)

/-- Where an array is left early: behind its bracket, or behind the next comma. -/
def leaveArray (c : Json.Cursor) : Json.Position :=
  let c := c.skipBlanks
  match c.peek? with
  | some byte =>
    if byte == 0x5D then c.advance.position
    else if byte == 0x2C then c.advance.skipBlanks.position
    else c.position
  | none => c.position

/-- Where an object is left early: behind its brace, or before what stands there instead. -/
def leaveObject (c : Json.Cursor) : Json.Position :=
  let c := c.skipBlanks
  if c.peek? == some 0x7D then c.advance.position else c.position

def endArray (c : Json.Cursor) : Except Json.Fault Json.Cursor :=
  let c := c.skipBlanks
  match c.peek? with
  | none => .error (c.fault .endInArray)
  | some byte =>
    if byte == 0x5D then .ok c.advance
    else if byte == 0x2C then
      let c := c.advance.skipBlanks
      if c.peek? == some 0x5D then .error (c.faultAhead .trailingComma)
      else .error (c.faultAhead .trailingCharacters)
    else .error (c.faultAhead .trailingCharacters)

variable [Json.DoubleReader]

/-- A value of the wrong type at a cursor, or what is wrong with it as JSON. A container is not
entered. -/
def refuse (expected : Shape) (byte : UInt8) (c : Json.Cursor) : Fault :=
  if byte == 0x5B then ⟨[], .wrongType (.arr []) expected, c.position⟩
  else if byte == 0x7B then ⟨[], .wrongType (.obj []) expected, c.position⟩
  else
    match Json.readScalar byte c with
    | .error f => .ofJson f
    | .ok (found, c) => ⟨[], .wrongType found expected, c.position⟩

def readText : Reader String := fun c =>
  let c := c.skipBlanks
  match c.peek? with
  | none => .error (.ofJson (c.fault .endInValue))
  | some byte =>
    if byte == 0x22 then ofJson (Json.readString c.advance) else .error (refuse .text byte c)

def readOptionalText : Reader (Option String) := fun c =>
  let ahead := c.skipBlanks
  if ahead.peek? == some 0x6E then
    ofJson ((Json.readLetters ahead.advance [0x75, 0x6C, 0x6C]).map (none, ·))
  else (readText c).map fun (s, c) => (some s, c)

def entryDepth : Nat := Json.maxDepth - 4

def declaration? : Json → Option Declaration
  | .arr [.str name, .str definition] => some (.field name definition)
  | .str reference => some (.imports reference)
  | _ => none

def readEntry : Reader Declaration := fun c => do
  let (v, c) ← ofJson (Json.readValue entryDepth c)
  match declaration? v with
  | some d => return (d, c)
  | none => throw ⟨[], .noFieldEntry, leaveArray c⟩

def readEntriesFrom : (steps index : Nat) → Reader (List Declaration)
  | 0, _, c => .error (.ofJson (c.fault .endInArray))
  | steps + 1, index, c => do
    let (more, c) ← ofJson (Json.nextItem (index == 0) c)
    if more then
      let (entry, c) ← under (.index index) (readEntry c)
      let (entries, c) ← readEntriesFrom steps (index + 1) c
      return (entry :: entries, c)
    else return ([], c.advance)

def readEntries : Reader (List Declaration) := fun c =>
  let c := c.skipBlanks
  match c.peek? with
  | none => .error (.ofJson (c.fault .endInValue))
  | some byte =>
    if byte == 0x5B then readEntriesFrom (c.rest.length + 1) 0 c.advance
    else .error (refuse .sequence byte c)

/-- Reads the members of an object with known names up to its closing brace, which is read too.
`member` tells how to take in the value of a name; it refuses a name that comes again. -/
def readMembers {σ : Type} (known : List String) (member : σ → String → Option (Reader σ)) :
    (steps : Nat) → (isFirst : Bool) → σ → Reader σ
  | 0, _, _, c => .error (.ofJson (c.fault .endInObject))
  | steps + 1, isFirst, state, c => do
    match ← ofJson (Json.readKey? isFirst c) with
    | (none, c) => return (state, c.advance)
    | (some name, c) =>
      if name ∉ known then throw ⟨[.key name], .unknownField name known, leaveObject c⟩
      match member state name with
      | none => throw ⟨[], .duplicateField name, leaveObject c⟩
      | some read =>
        let c ← ofJson (Json.readColon c)
        let (state, c) ← under (.key name) (read c)
        readMembers known member steps false state c

def readParts {α : Type} (shape : Shape) (ofArray ofObject : Reader α) : Reader α := fun c =>
  let c := c.skipBlanks
  match c.peek? with
  | none => .error (.ofJson (c.fault .endInValue))
  | some byte =>
    if byte == 0x5B then ofArray c.advance
    else if byte == 0x7B then ofObject c.advance
    else .error (refuse shape byte c)

structure EntryDraft where
  parent : Option (Option String) := none
  declarations : Option (List Declaration) := none

def EntryDraft.entry (d : EntryDraft) : ClassEntry := ⟨d.parent.join, d.declarations.getD []⟩

def EntryDraft.member (d : EntryDraft) (name : String) : Option (Reader EntryDraft) :=
  if name = "extends" then
    if d.parent.isSome then none
    else
      some fun c =>
        (readOptionalText c).map fun (parent, c) => ({ d with parent := some parent }, c)
  else if d.declarations.isSome then none
  else
    some fun c =>
      (readEntries c).map fun (entries, c) => ({ d with declarations := some entries }, c)

def readEntryParts : Reader ClassEntry := fun c => do
  let (more, c) ← ofJson (Json.nextItem true c)
  if !more then return (⟨none, []⟩, c.advance)
  let (parent, c) ← under (.index 0) (readOptionalText c)
  let (more, c) ← ofJson (Json.nextItem false c)
  if !more then return (⟨parent, []⟩, c.advance)
  let (entries, c) ← under (.index 1) (readEntries c)
  let c ← ofJson (endArray c)
  return (⟨parent, entries⟩, c)

def readEntryMembers : Reader ClassEntry := fun c => do
  let steps := c.rest.length + 1
  let (draft, c) ← readMembers ["extends", "fields"] EntryDraft.member steps true {} c
  return (draft.entry, c)

def readClassEntry : Reader ClassEntry := readParts .classEntry readEntryParts readEntryMembers

def readClassesFrom : (steps : Nat) → (isFirst : Bool) → Reader (List (String × ClassEntry))
  | 0, _, c => .error (.ofJson (c.fault .endInObject))
  | steps + 1, isFirst, c => do
    match ← ofJson (Json.readKey? isFirst c) with
    | (none, c) => return ([], c.advance)
    | (some name, c) =>
      let c ← ofJson (Json.readColon c)
      let (entry, c) ← under (.key name) (readClassEntry c)
      let (classes, c) ← readClassesFrom steps false c
      return ((name, entry) :: classes, c)

/-- Reads all class entries. Of entries with one name the last counts, in the place of the
first. -/
def readClasses : Reader (Dict String ClassEntry) := fun c =>
  let c := c.skipBlanks
  match c.peek? with
  | none => .error (.ofJson (c.fault .endInValue))
  | some byte =>
    if byte == 0x7B then
      (readClassesFrom (c.rest.length + 1) true c.advance).map fun (classes, c) =>
        (Dict.ofList classes, c)
    else .error (refuse .map byte c)

def readManifestParts : Reader Manifest := fun c => do
  let (more, c) ← ofJson (Json.nextItem true c)
  if !more then throw ⟨[], .noClasses, leaveArray c⟩
  let (classes, c) ← under (.index 0) (readClasses c)
  let c ← ofJson (endArray c)
  return (⟨classes⟩, c)

def takeClasses (classes : Option (Dict String ClassEntry)) (_ : String) :
    Option (Reader (Option (Dict String ClassEntry))) :=
  if classes.isSome then none
  else some fun c => (readClasses c).map fun (classes, c) => (some classes, c)

def readManifestMembers : Reader Manifest := fun c => do
  match ← readMembers ["classes"] takeClasses (c.rest.length + 1) true none c with
  | (some classes, c) => return (⟨classes⟩, c)
  | (none, c) => throw ⟨[], .missingField "classes", c.position⟩

def readManifest : Reader Manifest := readParts .manifest readManifestParts readManifestMembers

/-- The manifest that a text starts with; what follows it is not looked at. -/
def parse (text : String) : Except SchemaError Manifest :=
  match readManifest (.ofText text) with
  | .ok (m, _) => .ok m
  | .error f => .error f.toError

def declarations (m : Manifest) : List ClassDecl :=
  m.classes.map fun (name, entry) => ⟨⟨name⟩, entry.parent, entry.declarations, none⟩

def registry (m : Manifest) : Except SchemaError Registry := Registry.ofDecls m.declarations

end Manifest

end LazyBinding
