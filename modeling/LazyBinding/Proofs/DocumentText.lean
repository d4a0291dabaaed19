import LazyBinding.Proofs.WrittenNumber

/-!
# Written documents read back

A document that keeps to the limits of a text is read back from either layout of it: what is written
for a value is read as that value wherever it stands, and so is what is written for a container, by
induction on how the document is built.
-/
namespace LazyBinding.Json

variable {depth : Nat} {text piece : List Char} {document : Json} {rest blanks bytes : List UInt8}

/-! ### Blanks -/

def AreBlanks (bytes : List UInt8) : Prop := ∀ byte ∈ bytes, Cursor.isBlankByte byte = true

/-- The bytes do not start with a blank. -/
def NoBlank (bytes : List UInt8) : Prop := ∀ byte ∈ bytes.head?, Cursor.isBlankByte byte = false

theorem noBlank_cons {byte : UInt8} (h : Cursor.isBlankByte byte = false) (bytes : List UInt8) :
    NoBlank (byte :: bytes) := by
  rintro _ ⟨⟩
  exact h

theorem areBlanks_newLine (level : Nat) : AreBlanks (utf8 (newLine level)) := by
  have ascii : ∀ c ∈ newLine level, c.toNat < 0x80 ∧ Cursor.isBlankByte (byteOf c) = true := by
    intro c hc
    rcases List.mem_cons.1 hc with rfl | hc
    · decide
    · rw [List.eq_of_mem_replicate hc]
      decide
  intro byte hbyte
  rw [utf8_ascii fun c hc => (ascii c hc).1] at hbyte
  obtain ⟨c, hc, rfl⟩ := List.mem_map.1 hbyte
  exact (ascii c hc).2

theorem skipBlanksOf_noBlank (h : NoBlank bytes) (position : Position) :
    Cursor.skipBlanksOf position bytes = ⟨bytes, position⟩ := by
  cases bytes with
  | nil => rfl
  | cons byte bytes =>
    have noBlank : Cursor.isBlankByte byte = false := h byte rfl
    rw [Cursor.skipBlanksOf, noBlank]
    rfl

theorem skipBlanks_noBlank (h : NoBlank bytes) (position : Position) :
    (⟨bytes, position⟩ : Cursor).skipBlanks = ⟨bytes, position⟩ :=
  skipBlanksOf_noBlank h position

theorem skipBlanks_blanks (h : AreBlanks blanks) (stop : NoBlank rest) (position : Position) :
    ∃ position', (⟨blanks ++ rest, position⟩ : Cursor).skipBlanks = ⟨rest, position'⟩ := by
  induction blanks generalizing position with
  | nil => exact ⟨position, skipBlanks_noBlank stop position⟩
  | cons byte blanks ih =>
    obtain ⟨first, others⟩ := List.forall_mem_cons.1 h
    obtain ⟨position', skipped⟩ := ih others (position.after byte)
    refine ⟨position', ?_⟩
    unfold Cursor.skipBlanks
    dsimp only [List.cons_append]
    rw [Cursor.skipBlanksOf, first]
    exact skipped

theorem areBlanks_nil : AreBlanks [] := List.forall_mem_nil _

/-! ### Starts of values -/

/-- The bytes start as a value does: not with a blank and not with the end of an array. -/
def StartsValue (bytes : List UInt8) : Prop :=
  ∃ byte more, bytes = byte :: more ∧ Cursor.isBlankByte byte = false ∧ byte ≠ 0x5D

theorem StartsValue.noBlank (h : StartsValue bytes) (rest : List UInt8) :
    NoBlank (bytes ++ rest) := by
  obtain ⟨byte, more, rfl, noBlank, -⟩ := h
  exact noBlank_cons noBlank _

theorem isDigitByte_ne {byte other : UInt8} (h : isDigitByte byte = true)
    (hother : isDigitByte other = false) : byte ≠ other := by
  rintro rfl
  rw [h] at hother
  cases hother

theorem isBlankByte_digit {byte : UInt8} (h : isDigitByte byte = true) :
    Cursor.isBlankByte byte = false := by
  have ne : ∀ other, isDigitByte other = false → (byte == other) = false :=
    fun _ hother => beq_eq_false_iff_ne.2 (isDigitByte_ne h hother)
  rw [Cursor.isBlankByte, ne 0x20 (by decide), ne 0x0A (by decide), ne 0x0D (by decide),
    ne 0x09 (by decide)]
  rfl

theorem startsValue_signed (p : Spelling) (negative : Bool) :
    StartsValue (utf8 (p.signed negative)) := by
  cases negative with
  | true => exact ⟨0x2D, utf8 p.text, rfl, by decide, by decide⟩
  | false =>
    obtain ⟨byte, more, written, digit⟩ := p.exists_digit
    exact ⟨byte, more, written, isBlankByte_digit digit, isDigitByte_ne digit (by decide)⟩

/-! ### Pieces -/

/-- What stands behind the first of some pieces. -/
def commaLed (pieces : List (List Char)) : List Char := pieces.flatMap (',' :: ·)

theorem commaSeparated_cons (piece : List Char) (pieces : List (List Char)) :
    commaSeparated (piece :: pieces) = piece ++ commaLed pieces := by
  induction pieces generalizing piece with
  | nil => exact (List.append_nil piece).symm
  | cons next pieces ih =>
    rw [commaSeparated, ih]
    · rfl
    · rintro ⟨⟩

theorem delimited_nil : Delimited [] := by
  rintro _ ⟨⟩

theorem delimited_cons {byte : UInt8} (digit : isDigitByte byte = false)
    (letter : byte ≠ 0x2E ∧ byte ≠ 0x65 ∧ byte ≠ 0x45) : Delimited (byte :: rest) := by
  rintro _ ⟨⟩
  exact ⟨digit, letter⟩

theorem delimited_blanks (h : AreBlanks blanks) (stop : Delimited rest) :
    Delimited (blanks ++ rest) := by
  cases blanks with
  | nil => exact stop
  | cons byte blanks =>
    have blank := h byte List.mem_cons_self
    simp only [Cursor.isBlankByte, Bool.or_eq_true, beq_iff_eq] at blank
    obtain ((rfl | rfl) | rfl) | rfl := blank <;> exact delimited_cons (by decide) (by decide)

theorem delimited_commaLed (pieces : List (List Char)) (stop : Delimited rest) :
    Delimited (utf8 (commaLed pieces) ++ rest) := by
  cases pieces with
  | nil => exact stop
  | cons piece pieces => exact delimited_cons (by decide) (by decide)

theorem length_le_commaLed (pieces : List (List Char)) :
    pieces.length ≤ (utf8 (commaLed pieces)).length := by
  induction pieces with
  | nil => exact Nat.zero_le _
  | cons piece pieces ih =>
    have written : utf8 (commaLed (piece :: pieces)) =
        0x2C :: (utf8 piece ++ utf8 (commaLed pieces)) := by
      rw [← utf8_append]
      rfl
    rw [written, List.length_cons, List.length_cons, List.length_append]
    omega

/-- What leads a piece: a comma unless it is the first. -/
def lead (isFirst : Bool) : List UInt8 := if isFirst then [] else [0x2C]

section Pieces

variable {pieces : List (List Char)} {elements : List α} {ending : List UInt8}
  {IsPiece : List Char → α → Prop}
  {loop : (steps index : Nat) → Cursor → Except Fault (List α × Cursor)}

/-- A loop reads up to an ending and past it, and before that piece by piece. -/
structure ReadsPieces (loop : (steps index : Nat) → Cursor → Except Fault (List α × Cursor))
    (IsPiece : List Char → α → Prop) (ending rest : List UInt8) : Prop where
  finish (steps index : Nat) : Reads (loop (steps + 1) index) ending [] rest
  step {steps index : Nat} {piece : List Char} {a : α} {tail : List UInt8} {elements : List α}
    (first : IsPiece piece a) (stop : Delimited tail)
    (others : Reads (loop steps (index + 1)) tail elements rest) :
    Reads (loop (steps + 1) index) (lead (index == 0) ++ (utf8 piece ++ tail)) (a :: elements) rest

theorem ReadsPieces.reads_commaLed (reads : ReadsPieces loop IsPiece ending rest)
    (stop : Delimited ending) (h : List.Forall₂ IsPiece pieces elements) {steps : Nat}
    (enough : elements.length < steps) (index : Nat) :
    Reads (loop steps (index + 1)) (utf8 (commaLed pieces) ++ ending) elements rest := by
  induction h generalizing steps index with
  | nil =>
    obtain ⟨steps, rfl⟩ := Nat.exists_eq_add_of_lt enough
    exact reads.finish _ _
  | @cons piece a pieces elements first others ih =>
    obtain ⟨steps, rfl⟩ : ∃ n, steps = n + 1 := ⟨steps - 1, by omega⟩
    have behind := ih (Nat.lt_of_succ_lt_succ enough) (index + 1)
    have written : utf8 (commaLed (piece :: pieces)) ++ ending =
        lead (index + 1 == 0) ++ (utf8 piece ++ (utf8 (commaLed pieces) ++ ending)) := by
      rw [← List.append_assoc (utf8 piece), ← utf8_append]
      rfl
    rw [written]
    exact reads.step first (delimited_commaLed pieces stop) behind

theorem ReadsPieces.reads_commaSeparated (reads : ReadsPieces loop IsPiece ending rest)
    (stop : Delimited ending) (h : List.Forall₂ IsPiece pieces elements) (ended : ending ≠ []) :
    Reads (loop ((utf8 (commaSeparated pieces) ++ ending).length + 1) 0)
      (utf8 (commaSeparated pieces) ++ ending) elements rest := by
  cases h with
  | nil => exact reads.finish _ _
  | @cons piece a pieces elements first others =>
    have tail := delimited_commaLed pieces stop
    rw [commaSeparated_cons, utf8_append, List.append_assoc]
    refine reads.step first tail (reads.reads_commaLed stop others ?_ 0)
    have hpieces := length_le_commaLed pieces
    have hending := List.length_pos_iff.2 ended
    rw [← others.length_eq, List.length_append, List.length_append]
    omega

end Pieces

/-! ### Between items and members -/

theorem nextItem_end (isFirst : Bool) (h : AreBlanks blanks) (rest : List UInt8)
    (position : Position) :
    ∃ position', nextItem isFirst ⟨blanks ++ 0x5D :: rest, position⟩ =
      .ok (false, ⟨0x5D :: rest, position'⟩) := by
  have noBlank : NoBlank (0x5D :: rest) := noBlank_cons (by decide) _
  obtain ⟨position', skipped⟩ := skipBlanks_blanks h noBlank position
  refine ⟨position', ?_⟩
  rw [nextItem, skipped]
  rfl

theorem nextItem_found (isFirst : Bool) (hb : AreBlanks blanks) (hv : StartsValue bytes)
    (tail : List UInt8) (position : Position) :
    ∃ position', nextItem isFirst
        ⟨lead isFirst ++ (blanks ++ (bytes ++ tail)), position⟩ =
      .ok (true, ⟨bytes ++ tail, position'⟩) := by
  have noBlank := hv.noBlank tail
  obtain ⟨byte, more, rfl, -, noEnd⟩ := hv
  have other : ¬(byte == 0x5D) = true := mt beq_iff_eq.1 noEnd
  cases isFirst with
  | true =>
    obtain ⟨position', skipped⟩ := skipBlanks_blanks hb noBlank position
    refine ⟨position', ?_⟩
    rw [lead, if_pos rfl, List.nil_append, nextItem, skipped]
    dsimp only
    rw [List.cons_append, Cursor.peek?_cons]
    dsimp only
    rw [if_neg other, if_pos rfl]
  | false =>
    obtain ⟨position', skipped⟩ := skipBlanks_blanks hb noBlank (position.after 0x2C)
    refine ⟨position', ?_⟩
    have comma : NoBlank (0x2C :: (blanks ++ (byte :: more ++ tail))) := noBlank_cons (by decide) _
    rw [lead, if_neg (by decide), List.singleton_append, nextItem, skipBlanks_noBlank comma]
    dsimp only
    rw [Cursor.peek?_cons, Cursor.advance_cons, skipped]
    dsimp only
    rw [if_neg (by decide), if_neg (by decide), if_pos (by decide), List.cons_append,
      Cursor.peek?_cons]
    dsimp only
    rw [if_neg other]

theorem readItems_end (item : Cursor → Except Fault (Json × Cursor)) (steps index : Nat)
    (h : AreBlanks blanks) :
    Reads (readItems item (steps + 1) index) (blanks ++ 0x5D :: rest) [] rest := by
  intro position
  obtain ⟨position', found⟩ := nextItem_end (index == 0) h rest position
  refine ⟨position'.after 0x5D, ?_⟩
  rw [readItems, found]
  rfl

theorem readKey?_end (isFirst : Bool) (h : AreBlanks blanks) (rest : List UInt8)
    (position : Position) :
    ∃ position', readKey? isFirst ⟨blanks ++ 0x7D :: rest, position⟩ =
      .ok (none, ⟨0x7D :: rest, position'⟩) := by
  have noBlank : NoBlank (0x7D :: rest) := noBlank_cons (by decide) _
  obtain ⟨position', skipped⟩ := skipBlanks_blanks h noBlank position
  refine ⟨position', ?_⟩
  rw [readKey?, nextMember, skipped]
  rfl

theorem nextMember_found (isFirst : Bool) (hb : AreBlanks blanks) (position : Position) :
    ∃ position', nextMember isFirst ⟨lead isFirst ++ (blanks ++ 0x22 :: rest), position⟩ =
      .ok (true, ⟨0x22 :: rest, position'⟩) := by
  have noBlank : NoBlank (0x22 :: rest) := noBlank_cons (by decide) _
  cases isFirst with
  | true =>
    obtain ⟨position', skipped⟩ := skipBlanks_blanks hb noBlank position
    refine ⟨position', ?_⟩
    rw [lead, if_pos rfl, List.nil_append, nextMember, skipped]
    rfl
  | false =>
    obtain ⟨position', skipped⟩ := skipBlanks_blanks hb noBlank (position.after 0x2C)
    refine ⟨position', ?_⟩
    have comma : NoBlank (0x2C :: (blanks ++ 0x22 :: rest)) := noBlank_cons (by decide) _
    rw [lead, if_neg (by decide), List.singleton_append, nextMember, skipBlanks_noBlank comma]
    dsimp only
    rw [Cursor.peek?_cons, Cursor.advance_cons, skipped]
    rfl

theorem readKey?_found (isFirst : Bool) (hb : AreBlanks blanks) (key : String)
    (rest : List UInt8) :
    Reads (readKey? isFirst) (lead isFirst ++ (blanks ++ (utf8 (writeString key) ++ rest)))
      (some key) rest := by
  intro position
  have quoted : utf8 (writeString key) ++ rest =
      0x22 :: (utf8 (key.toList.flatMap writeChar ++ ['"']) ++ rest) := rfl
  rw [quoted]
  obtain ⟨position₁, found⟩ := nextMember_found isFirst hb position
  obtain ⟨position₂, read⟩ := readString_written key rest position₁
  refine ⟨position₂, ?_⟩
  rw [quoted] at read
  rw [readKey?, found]
  dsimp only
  rw [read]

/-! ### Layouts -/

theorem compactItems_eq_map (items : List Json) : compactItems items = items.map writeCompact := by
  induction items with
  | nil => rfl
  | cons item items ih => rw [compactItems, ih, List.map_cons]

theorem compactMembers_eq_map (members : List (String × Json)) :
    compactMembers members =
      members.map fun member => writeString member.1 ++ ':' :: writeCompact member.2 := by
  induction members with
  | nil => rfl
  | cons member members ih => rw [compactMembers, ih, List.map_cons]

theorem indentedItems_eq_map (level : Nat) (items : List Json) :
    indentedItems level items =
      items.map fun item => newLine level ++ writeIndented level item := by
  induction items with
  | nil => rfl
  | cons item items ih => rw [indentedItems, ih, List.map_cons]

theorem indentedMembers_eq_map (level : Nat) (members : List (String × Json)) :
    indentedMembers level members = members.map fun member =>
      newLine level ++ writeString member.1 ++ ':' :: ' ' :: writeIndented level member.2 := by
  induction members with
  | nil => rfl
  | cons member members ih => rw [indentedMembers, ih, List.map_cons]

theorem forall₂_map_left {β : Type} {IsPiece : List Char → β → Prop} {write : β → List Char}
    {elements : List β} (h : ∀ a ∈ elements, IsPiece (write a) a) :
    List.Forall₂ IsPiece (elements.map write) elements := by
  rw [List.forall₂_map_left_iff, List.forall₂_same]
  exact h

section Reader

variable [DoubleReader]

/-- The text that is written for a double reads back as the double. -/
def ReadsBack (x : Float) : Prop := decodeWhole (.ofText (numberLayout.write x)) = .ok (.float x)

/-- What a text can keep: at most `depth` containers inside each other, integers of the 64-bit
words, finite doubles that read back, and no key twice. -/
inductive Fits : (depth : Nat) → Json → Prop where
  | null {depth : Nat} : Fits depth .null
  | bool {depth : Nat} (b : Bool) : Fits depth (.bool b)
  | int {depth : Nat} {n : Int} (least : Int64.minValue.toInt ≤ n) (greatest : n < UInt64.size) :
    Fits depth (.int n)
  | float {depth : Nat} {x : Float} (finite : x.isFinite = true) (back : ReadsBack x) :
    Fits depth (.float x)
  | str {depth : Nat} (s : String) : Fits depth (.str s)
  | arr {depth : Nat} {items : List Json} (inner : ∀ item ∈ items, Fits depth item) :
    Fits (depth + 1) (.arr items)
  | obj {depth : Nat} {members : List (String × Json)} (distinct : Dict.Distinct members)
    (inner : ∀ member ∈ members, Fits depth member.2) : Fits (depth + 1) (.obj members)

/-! ### Values -/

/-- Inside at most `depth` containers, a text is read as a document wherever it stands. -/
structure IsTextOf (depth : Nat) (text : List Char) (document : Json) : Prop where
  starts : StartsValue (utf8 text)
  reads : ∀ rest, Delimited rest → Reads (readValue depth) (utf8 text ++ rest) document rest

theorem readValue_skipBlanks (depth : Nat) (c : Cursor)
    (h : c.skipBlanks.skipBlanks = c.skipBlanks) :
    readValue depth c = readValue depth c.skipBlanks := by
  rw [readValue, readValue, h]

theorem IsTextOf.reads_blanks (h : IsTextOf depth text document) (hb : AreBlanks blanks)
    (stop : Delimited rest) :
    Reads (readValue depth) (blanks ++ (utf8 text ++ rest)) document rest := by
  intro position
  have noBlank := h.starts.noBlank rest
  obtain ⟨position', skipped⟩ := skipBlanks_blanks hb noBlank position
  rw [readValue_skipBlanks depth _ (by rw [skipped, skipBlanks_noBlank noBlank]), skipped]
  exact h.reads rest stop position'

theorem readValue_scalar {byte : UInt8} (noBlank : Cursor.isBlankByte byte = false)
    (noArray : byte ≠ 0x5B) (noObject : byte ≠ 0x7B) (position : Position) :
    readValue depth ⟨byte :: rest, position⟩ = readScalar byte ⟨byte :: rest, position⟩ := by
  rw [readValue, skipBlanks_noBlank (noBlank_cons noBlank _)]
  dsimp only
  rw [Cursor.peek?_cons]
  dsimp only
  rw [if_neg (by simp [noArray, noObject])]

theorem isTextOf_scalar {byte : UInt8} {more : List UInt8} (written : utf8 text = byte :: more)
    (noBlank : Cursor.isBlankByte byte = false)
    (noBracket : byte ≠ 0x5B ∧ byte ≠ 0x5D ∧ byte ≠ 0x7B)
    (reads : ∀ rest, Delimited rest → Reads (readScalar byte) (utf8 text ++ rest) document rest) :
    IsTextOf depth text document := by
  obtain ⟨noArray, noEnd, noObject⟩ := noBracket
  refine ⟨⟨byte, more, written, noBlank, noEnd⟩, ?_⟩
  intro rest stop position
  obtain ⟨position', read⟩ := reads rest stop position
  refine ⟨position', ?_⟩
  rw [written, List.cons_append] at read ⊢
  rw [readValue_scalar noBlank noArray noObject]
  exact read

theorem isTextOf_null : IsTextOf depth "null".toList .null :=
  isTextOf_scalar rfl (by decide) (by decide) fun _ _ _ => ⟨_, rfl⟩

theorem isTextOf_true : IsTextOf depth "true".toList (.bool true) :=
  isTextOf_scalar rfl (by decide) (by decide) fun _ _ _ => ⟨_, rfl⟩

theorem isTextOf_false : IsTextOf depth "false".toList (.bool false) :=
  isTextOf_scalar rfl (by decide) (by decide) fun _ _ _ => ⟨_, rfl⟩

theorem readScalar_quote (c : Cursor) :
    readScalar 0x22 c = (readString c.advance).map fun read => (.str read.1, read.2) := rfl

theorem isTextOf_string (s : String) : IsTextOf depth (writeString s) (.str s) := by
  have written : utf8 (writeString s) = 0x22 :: utf8 (s.toList.flatMap writeChar ++ ['"']) := rfl
  refine isTextOf_scalar written (by decide) (by decide) fun rest _ position => ?_
  obtain ⟨position', read⟩ := readString_written s rest position
  refine ⟨position', ?_⟩
  rw [readScalar_quote, read]
  rfl

theorem readScalar_digit {byte : UInt8} (h : isDigitByte byte = true) (c : Cursor) :
    readScalar byte c = readNumber false c := by
  have ne : ∀ other, isDigitByte other = false → ¬(byte == other) = true :=
    fun _ hother => mt beq_iff_eq.1 (isDigitByte_ne h hother)
  rw [readScalar, if_neg (ne 0x6E (by decide)), if_neg (ne 0x74 (by decide)),
    if_neg (ne 0x66 (by decide)), if_neg (ne 0x2D (by decide)), if_pos h]

theorem readValue_signed (depth : Nat) (p : Spelling) (negative : Bool) (rest : List UInt8)
    (position : Position) :
    ∃ position', readValue depth ⟨utf8 (p.signed negative) ++ rest, position⟩ =
      readNumber negative ⟨utf8 p.text ++ rest, position'⟩ := by
  cases negative with
  | true =>
    refine ⟨position.after 0x2D, ?_⟩
    have minus : utf8 (p.signed true) ++ rest = 0x2D :: (utf8 p.text ++ rest) := rfl
    rw [minus, readValue_scalar (by decide) (by decide) (by decide)]
    rfl
  | false =>
    obtain ⟨byte, more, written, digit⟩ := p.exists_digit
    refine ⟨position, ?_⟩
    change readValue depth ⟨utf8 p.text ++ rest, position⟩ = _
    rw [written, List.cons_append, readValue_scalar (isBlankByte_digit digit)
      (isDigitByte_ne digit (by decide)) (isDigitByte_ne digit (by decide)), readScalar_digit digit]

theorem isTextOf_number (h : IsNumberText text document) : IsTextOf depth text document := by
  obtain ⟨negative, p, rfl, reads⟩ := h
  refine ⟨startsValue_signed p negative, ?_⟩
  intro rest stop position
  obtain ⟨position₁, number⟩ := readValue_signed depth p negative rest position
  obtain ⟨position₂, read⟩ := reads rest stop position₁
  exact ⟨position₂, number.trans read⟩

/-! ### Doubles -/

theorem IsTextOf.decodeWhole (h : IsTextOf maxDepth text document) :
    decodeWhole (.ofText (String.ofList text)) = .ok document := by
  obtain ⟨position, read⟩ := h.reads [] delimited_nil ⟨1, 0⟩
  rw [List.append_nil] at read
  rw [ofText_ofList, Json.decodeWhole, read]
  rfl

/-- A double that reads back by itself is the one that the reader makes of its spelling. -/
theorem ReadsBack.double? {x : Float} {negative : Bool} {p : Spelling} (back : ReadsBack x)
    (text : (numberLayout.write x).toList = p.signed negative) (inexact : p.isLone = false) :
    DoubleReader.double? (p.written negative) = some x := by
  have back : decodeWhole (.ofText (String.ofList (p.signed negative))) = .ok (.float x) := by
    rw [← text, String.ofList_toList]
    exact back
  cases double : DoubleReader.double? (p.written negative) with
  | some y =>
    have read : IsTextOf maxDepth (p.signed negative) (.float y) :=
      isTextOf_number (isNumberText_float inexact double)
    cases read.decodeWhole.symm.trans back
    rfl
  | none =>
    obtain ⟨position, number⟩ := readValue_signed maxDepth p negative [] ⟨1, 0⟩
    obtain ⟨f, failed⟩ := p.readNumber_none inexact double delimited_nil position
    rw [List.append_nil] at number
    rw [ofText_ofList, decodeWhole, number, failed] at back
    cases back

theorem isTextOf_float {x : Float} (finite : x.isFinite = true) (back : ReadsBack x) :
    IsTextOf depth (numberLayout.write x).toList (.float x) := by
  obtain ⟨negative, p, text, inexact, -⟩ := exists_spelling finite
  rw [text]
  exact isTextOf_number (isNumberText_float inexact (back.double? text inexact))

/-! ### Arrays -/

/-- An item as it stands between the commas of an array: perhaps after blanks. -/
def IsItem (depth : Nat) (piece : List Char) (item : Json) : Prop :=
  ∃ blanks text, utf8 piece = blanks ++ utf8 text ∧ AreBlanks blanks ∧ IsTextOf depth text item

theorem readItems_item {steps index : Nat} {item : Json} {items : List Json} {tail : List UInt8}
    (h : IsItem depth piece item) (stop : Delimited tail)
    (others : Reads (readItems (readValue depth) steps (index + 1)) tail items rest) :
    Reads (readItems (readValue depth) (steps + 1) index)
      (lead (index == 0) ++ (utf8 piece ++ tail)) (item :: items) rest := by
  obtain ⟨blanks, text, written, hblanks, hitem⟩ := h
  intro position
  obtain ⟨position₁, found⟩ :=
    nextItem_found (index == 0) hblanks hitem.starts tail position
  obtain ⟨position₂, read⟩ := hitem.reads tail stop position₁
  obtain ⟨position₃, more⟩ := others position₂
  refine ⟨position₃, ?_⟩
  rw [written, List.append_assoc, readItems, found]
  dsimp only
  rw [read]
  dsimp only
  rw [more]

theorem readValue_array (inside : List UInt8) (position : Position) :
    readValue (depth + 1) ⟨0x5B :: inside, position⟩ =
      (readItems (readValue depth) (inside.length + 1) 0 ⟨inside, position.after 0x5B⟩).map
        fun (items, c) => (.arr items, c) := by
  have noBlank : NoBlank (0x5B :: inside) := noBlank_cons (by decide) _
  rw [readValue, skipBlanks_noBlank noBlank]
  rfl

theorem isTextOf_array {pieces : List (List Char)} {items : List Json}
    (h : List.Forall₂ (IsItem depth) pieces items) (gap : List Char) (hb : AreBlanks (utf8 gap)) :
    IsTextOf (depth + 1) ('[' :: commaSeparated pieces ++ gap ++ [']']) (.arr items) := by
  have written : ∀ rest, utf8 ('[' :: commaSeparated pieces ++ gap ++ [']']) ++ rest =
      0x5B :: (utf8 (commaSeparated pieces) ++ (utf8 gap ++ 0x5D :: rest)) := by
    intro rest
    rw [utf8_append, utf8_append, List.append_assoc, List.append_assoc]
    rfl
  refine ⟨⟨0x5B, _, (List.append_nil _).symm.trans (written []), by decide, by decide⟩, ?_⟩
  intro rest stop position
  have ending : Delimited (utf8 gap ++ 0x5D :: rest) :=
    delimited_blanks hb (delimited_cons (by decide) (by decide))
  have reads : ReadsPieces (readItems (readValue depth)) (IsItem depth)
      (utf8 gap ++ 0x5D :: rest) rest :=
    ⟨fun steps index => readItems_end _ steps index hb, readItems_item⟩
  obtain ⟨position', read⟩ := reads.reads_commaSeparated ending h
    (List.append_ne_nil_of_right_ne_nil _ (List.cons_ne_nil _ _)) (position.after 0x5B)
  refine ⟨position', ?_⟩
  rw [written, readValue_array, read]
  rfl

/-! ### Objects -/

/-- A member as it stands between the commas of an object: perhaps after blanks, and perhaps with
blanks between the colon and the value. -/
def IsMember (depth : Nat) (piece : List Char) (member : String × Json) : Prop :=
  ∃ blanks gap text, utf8 piece =
      blanks ++ (utf8 (writeString member.1) ++ 0x3A :: (gap ++ utf8 text)) ∧
    AreBlanks blanks ∧ AreBlanks gap ∧ IsTextOf depth text member.2

theorem readMember_found (key : String) {v : Json} (h : IsTextOf depth text v)
    (hb : AreBlanks blanks) (stop : Delimited rest) :
    Reads (readMember (readValue depth) key) (0x3A :: (blanks ++ (utf8 text ++ rest))) v rest := by
  intro position
  obtain ⟨position', read⟩ := h.reads_blanks hb stop (position.after 0x3A)
  have noBlank : NoBlank (0x3A :: (blanks ++ (utf8 text ++ rest))) := noBlank_cons (by decide) _
  refine ⟨position', ?_⟩
  rw [readMember, readColon, skipBlanks_noBlank noBlank, Cursor.peek?_cons, Cursor.advance_cons]
  dsimp only
  rw [if_pos (by decide)]
  dsimp only
  rw [read]

/-- The loop over the members of an object; it only asks whether a member is the first. -/
def membersFrom (depth steps index : Nat) : Cursor → Except Fault (List (String × Json) × Cursor) :=
  readMembers (readValue depth) steps (index == 0)

theorem membersFrom_end (depth steps index : Nat) (h : AreBlanks blanks) :
    Reads (membersFrom depth (steps + 1) index) (blanks ++ 0x7D :: rest) [] rest := by
  intro position
  obtain ⟨position', found⟩ := readKey?_end (index == 0) h rest position
  refine ⟨position'.after 0x7D, ?_⟩
  rw [membersFrom, readMembers, found]
  rfl

theorem membersFrom_member {steps index : Nat} {member : String × Json}
    {members : List (String × Json)} {tail : List UInt8} (h : IsMember depth piece member)
    (stop : Delimited tail)
    (others : Reads (membersFrom depth steps (index + 1)) tail members rest) :
    Reads (membersFrom depth (steps + 1) index) (lead (index == 0) ++ (utf8 piece ++ tail))
      (member :: members) rest := by
  obtain ⟨blanks, gap, text, written, hblanks, hgap, hvalue⟩ := h
  intro position
  obtain ⟨position₁, key⟩ := readKey?_found (index == 0) hblanks member.1
    (0x3A :: (gap ++ (utf8 text ++ tail))) position
  obtain ⟨position₂, value⟩ := readMember_found member.1 hvalue hgap stop position₁
  obtain ⟨position₃, more⟩ := others position₂
  refine ⟨position₃, ?_⟩
  have regroup : utf8 piece ++ tail =
      blanks ++ (utf8 (writeString member.1) ++ 0x3A :: (gap ++ (utf8 text ++ tail))) := by
    rw [written]
    simp only [List.append_assoc, List.cons_append]
  rw [regroup, membersFrom, readMembers, key]
  dsimp only
  rw [value]
  dsimp only
  have more' : readMembers (readValue depth) steps false ⟨tail, position₂⟩ =
      .ok (members, ⟨rest, position₃⟩) := more
  rw [more']

theorem readValue_object (inside : List UInt8) (position : Position) :
    readValue (depth + 1) ⟨0x7B :: inside, position⟩ =
      (membersFrom depth (inside.length + 1) 0 ⟨inside, position.after 0x7B⟩).map
        fun (members, c) => (.obj (Dict.ofList members), c) := by
  have noBlank : NoBlank (0x7B :: inside) := noBlank_cons (by decide) _
  rw [readValue, skipBlanks_noBlank noBlank]
  rfl

theorem isTextOf_object {pieces : List (List Char)} {members : List (String × Json)}
    (h : List.Forall₂ (IsMember depth) pieces members) (distinct : Dict.Distinct members)
    (gap : List Char) (hb : AreBlanks (utf8 gap)) :
    IsTextOf (depth + 1) ('\x7b' :: commaSeparated pieces ++ gap ++ ['\x7d']) (.obj members) := by
  have written : ∀ rest, utf8 ('\x7b' :: commaSeparated pieces ++ gap ++ ['\x7d']) ++ rest =
      0x7B :: (utf8 (commaSeparated pieces) ++ (utf8 gap ++ 0x7D :: rest)) := by
    intro rest
    rw [utf8_append, utf8_append, List.append_assoc, List.append_assoc]
    rfl
  refine ⟨⟨0x7B, _, (List.append_nil _).symm.trans (written []), by decide, by decide⟩, ?_⟩
  intro rest stop position
  have ending : Delimited (utf8 gap ++ 0x7D :: rest) :=
    delimited_blanks hb (delimited_cons (by decide) (by decide))
  have reads : ReadsPieces (membersFrom depth) (IsMember depth) (utf8 gap ++ 0x7D :: rest) rest :=
    ⟨fun steps index => membersFrom_end depth steps index hb, membersFrom_member⟩
  obtain ⟨position', read⟩ := reads.reads_commaSeparated ending h
    (List.append_ne_nil_of_right_ne_nil _ (List.cons_ne_nil _ _)) (position.after 0x7B)
  refine ⟨position', ?_⟩
  rw [written, readValue_object, read]
  exact congrArg (fun d => Except.ok (Json.obj d, _)) (Dict.ofList_eq_self distinct)

/-! ### Documents -/

theorem Fits.compact (h : Fits depth document) :
    IsTextOf depth (writeCompact document) document := by
  induction h with
  | null => exact isTextOf_null
  | bool b =>
    cases b with
    | true => exact isTextOf_true
    | false => exact isTextOf_false
  | int least greatest => exact isTextOf_number (isNumberText_int least greatest)
  | float finite back => exact isTextOf_float finite back
  | str s => exact isTextOf_string s
  | @arr depth items _ ih =>
    have pieces : List.Forall₂ (IsItem depth) (items.map writeCompact) items :=
      forall₂_map_left fun item hitem => ⟨[], _, rfl, areBlanks_nil, ih item hitem⟩
    have text := isTextOf_array pieces [] areBlanks_nil
    rw [List.append_nil] at text
    rw [writeCompact, compactItems_eq_map]
    exact text
  | @obj depth members distinct _ ih =>
    have pieces : List.Forall₂ (IsMember depth) (members.map fun member =>
        writeString member.1 ++ ':' :: writeCompact member.2) members := by
      refine forall₂_map_left fun member hmember => ⟨[], [], _, ?_, areBlanks_nil, areBlanks_nil,
        ih member hmember⟩
      rw [utf8_append]
      rfl
    have text := isTextOf_object pieces distinct [] areBlanks_nil
    rw [List.append_nil] at text
    rw [writeCompact, compactMembers_eq_map]
    exact text

theorem Fits.indented (h : Fits depth document) (level : Nat) :
    IsTextOf depth (writeIndented level document) document := by
  induction h generalizing level with
  | null => exact Fits.null.compact
  | bool b => exact (Fits.bool b).compact
  | int least greatest => exact (Fits.int least greatest).compact
  | float finite back => exact (Fits.float finite back).compact
  | str s => exact (Fits.str s).compact
  | @arr depth items inner ih =>
    cases items with
    | nil => exact (Fits.arr inner).compact
    | cons item items =>
      have pieces : List.Forall₂ (IsItem depth) ((item :: items).map fun item =>
          newLine (level + 1) ++ writeIndented (level + 1) item) (item :: items) :=
        forall₂_map_left fun item hitem => ⟨utf8 (newLine (level + 1)), _, utf8_append _ _,
          areBlanks_newLine _, ih item hitem (level + 1)⟩
      rw [← indentedItems_eq_map] at pieces
      exact isTextOf_array pieces _ (areBlanks_newLine level)
  | @obj depth members distinct inner ih =>
    cases members with
    | nil => exact (Fits.obj distinct inner).compact
    | cons member members =>
      have pieces : List.Forall₂ (IsMember depth) ((member :: members).map fun member =>
          newLine (level + 1) ++ writeString member.1 ++
            ':' :: ' ' :: writeIndented (level + 1) member.2) (member :: members) := by
        refine forall₂_map_left fun member hmember => ⟨utf8 (newLine (level + 1)), utf8 [' '], _,
          ?_, areBlanks_newLine _, List.forall_mem_singleton.2 rfl, ih member hmember (level + 1)⟩
        rw [utf8_append, utf8_append, List.append_assoc]
        rfl
      rw [← indentedMembers_eq_map] at pieces
      exact isTextOf_object pieces distinct _ (areBlanks_newLine level)

/-- A document that fits is what the reader finds in either of its texts. -/
theorem Fits.decodeFirst_encode (h : Fits maxDepth document) (indented : Bool) :
    decodeFirst (.ofText (document.encode indented)) = .ok document := by
  have text : IsTextOf maxDepth
      (if indented then writeIndented 0 document else writeCompact document) document := by
    split
    · exact h.indented 0
    · exact h.compact
  obtain ⟨position, read⟩ := text.reads [] delimited_nil ⟨1, 0⟩
  rw [List.append_nil] at read
  rw [encode, ofText_ofList, decodeFirst, read]
  rfl

end Reader

theorem readsBack_nearest {x : Float} (finite : x.isFinite = true) :
    @ReadsBack nearestDoubles x := by
  let _ : DoubleReader := nearestDoubles
  obtain ⟨negative, p, text, inexact, noOverflow, same⟩ := exists_spelling finite
  have fits : p.numeral.overflows = false := beq_eq_false_iff_ne.2 noOverflow
  have double : DoubleReader.double? (p.written negative) = some x := by
    change (if (p.written negative).numeral.overflows then none else _) = _
    rw [p.numeral_written, fits, ← same]
    rfl
  have decoded := (isTextOf_number (isNumberText_float inexact double)).decodeWhole
  rwa [← text, String.ofList_toList] at decoded

end LazyBinding.Json
