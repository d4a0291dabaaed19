import LazyBinding.Json.Number
import LazyBinding.Json.Quoted

/-!
# Reading JSON

Containers may be nested 127 deep. A fault carries the path of the value at which it arose; a fault
in the place of a key, or where a comma or the end of an object was expected, has an unknown last
step.
-/
namespace LazyBinding.Json

def maxDepth : Nat := 127

def readLetters (c : Cursor) : List UInt8 → Except Fault Cursor
  | [] => .ok c
  | letter :: letters =>
    match c.peek? with
    | none => .error (c.fault .endInValue)
    | some byte =>
      if byte == letter then readLetters c.advance letters
      else .error (c.faultAhead .expectedWord)

/-- Whether another item of an array follows, with the cursor at it or at the closing bracket. -/
def nextItem (isFirst : Bool) (c : Cursor) : Except Fault (Bool × Cursor) :=
  let c := c.skipBlanks
  match c.peek? with
  | none => .error (c.fault .endInArray)
  | some byte =>
    if byte == 0x5D then .ok (false, c)
    else if isFirst then .ok (true, c)
    else if byte == 0x2C then
      let c := c.advance.skipBlanks
      match c.peek? with
      | none => .error (c.fault .endInValue)
      | some next => if next == 0x5D then .error (c.faultAhead .trailingComma) else .ok (true, c)
    else .error (c.faultAhead .expectedArrayEnd)

def nextMember (isFirst : Bool) (c : Cursor) : Except Fault (Bool × Cursor) :=
  let c := c.skipBlanks
  match c.peek? with
  | none => .error (c.fault .endInObject)
  | some byte =>
    if byte == 0x7D then .ok (false, c)
    else if isFirst then
      if byte == 0x22 then .ok (true, c) else .error (c.faultAhead .keyNotAString)
    else if byte == 0x2C then
      let c := c.advance.skipBlanks
      match c.peek? with
      | none => .error (c.fault .endInValue)
      | some next =>
        if next == 0x22 then .ok (true, c)
        else if next == 0x7D then .error (c.faultAhead .trailingComma)
        else .error (c.faultAhead .keyNotAString)
    else .error (c.faultAhead .expectedObjectEnd)

def readColon (c : Cursor) : Except Fault Cursor :=
  let c := c.skipBlanks
  match c.peek? with
  | none => .error (c.fault .endInObject)
  | some byte => if byte == 0x3A then .ok c.advance else .error (c.faultAhead .expectedColon)

def readKey? (isFirst : Bool) (c : Cursor) : Except Fault (Option String × Cursor) :=
  match nextMember isFirst c with
  | .error f => .error (f.within .unknown)
  | .ok (false, c) => .ok (none, c)
  | .ok (true, c) =>
    match readString c.advance with
    | .error f => .error (f.within .unknown)
    | .ok (key, c) => .ok (some key, c)

/-- Reads the items of an array from the one at `index` up to the closing bracket, which is read
too. Each item takes at least one byte, so as many steps as bytes suffice. -/
def readItems (item : Cursor → Except Fault (Json × Cursor)) :
    (steps index : Nat) → Cursor → Except Fault (List Json × Cursor)
  | 0, _, c => .error (c.fault .endInArray)
  | steps + 1, index, c =>
    match nextItem (index == 0) c with
    | .error f => .error f
    | .ok (false, c) => .ok ([], c.advance)
    | .ok (true, c) =>
      match item c with
      | .error f => .error (f.within (.index index))
      | .ok (v, c) =>
        match readItems item steps (index + 1) c with
        | .error f => .error f
        | .ok (items, c) => .ok (v :: items, c)

def readMember (value : Cursor → Except Fault (Json × Cursor)) (key : String) (c : Cursor) :
    Except Fault (Json × Cursor) :=
  match readColon c with
  | .error f => .error f
  | .ok c =>
    match value c with
    | .error f => .error (f.within (.key key))
    | .ok (v, c) => .ok (v, c)

def readMembers (value : Cursor → Except Fault (Json × Cursor)) :
    (steps : Nat) → (isFirst : Bool) → Cursor → Except Fault (List (String × Json) × Cursor)
  | 0, _, c => .error (c.fault .endInObject)
  | steps + 1, isFirst, c =>
    match readKey? isFirst c with
    | .error f => .error f
    | .ok (none, c) => .ok ([], c.advance)
    | .ok (some key, c) =>
      match readMember value key c with
      | .error f => .error f
      | .ok (v, c) =>
        match readMembers value steps false c with
        | .error f => .error f
        | .ok (members, c) => .ok ((key, v) :: members, c)

variable [DoubleReader]

def readScalar (byte : UInt8) (c : Cursor) : Except Fault (Json × Cursor) :=
  if byte == 0x6E then (readLetters c.advance [0x75, 0x6C, 0x6C]).map (.null, ·)
  else if byte == 0x74 then (readLetters c.advance [0x72, 0x75, 0x65]).map (.bool true, ·)
  else if byte == 0x66 then
    (readLetters c.advance [0x61, 0x6C, 0x73, 0x65]).map (.bool false, ·)
  else if byte == 0x2D then readNumber true c.advance
  else if isDigitByte byte then readNumber false c
  else if byte == 0x22 then (readString c.advance).map fun (s, c) => (.str s, c)
  else .error (c.faultAhead .expectedValue)

/-- Reads one value with at most `depth` containers inside each other. Of members with one key the
last value counts, in the place of the first. -/
def readValue : (depth : Nat) → Cursor → Except Fault (Json × Cursor)
  | depth, c =>
    let c := c.skipBlanks
    match c.peek? with
    | none => .error (c.fault .endInValue)
    | some byte =>
      if byte == 0x5B || byte == 0x7B then
        match depth with
        | 0 => .error (c.faultAhead .tooDeep)
        | depth + 1 =>
          let inside := c.advance
          let steps := inside.rest.length + 1
          if byte == 0x5B then
            (readItems (readValue depth) steps 0 inside).map fun (items, c) => (.arr items, c)
          else
            (readMembers (readValue depth) steps true inside).map fun (members, c) =>
              (.obj (Dict.ofList members), c)
      else readScalar byte c

/-- The first value of a text; what follows it is not looked at. -/
def decodeFirst (c : Cursor) : Except Fault Json := (readValue maxDepth c).map Prod.fst

def decodeWhole (c : Cursor) : Except Fault Json :=
  match readValue maxDepth c with
  | .error f => .error f
  | .ok (v, c) =>
    let c := c.skipBlanks
    if c.peek?.isSome then .error (c.faultAhead .trailingCharacters) else .ok v

end LazyBinding.Json
