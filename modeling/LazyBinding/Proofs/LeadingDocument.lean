import LazyBinding.CommandLine.Document
import LazyBinding.Proofs.ReaderLocality
import LazyBinding.Value.Decoding

/-!
# The document a text starts with

Decoding a text and deserializing it find the same value where both succeed. Decoding also succeeds
on a text that goes on behind its first value, and then nothing of what follows is looked at.
-/
namespace LazyBinding

variable {bytes rest : List UInt8} {document : Json} {c c' : Json.Cursor}

namespace Json

theorem peek?_skipBlanks_iff (c : Cursor) : c.skipBlanks.peek? = none ↔ AreBlanks c.rest := by
  obtain ⟨blanks, areBlanks, split, noBlank⟩ := exists_blanks c
  rw [split]
  constructor
  · intro ended
    have nothing : c.skipBlanks.rest = [] := List.head?_eq_none_iff.1 ended
    rw [nothing, List.append_nil]
    exact areBlanks
  · intro all
    cases hrest : c.skipBlanks.rest with
    | nil => exact congrArg List.head? hrest
    | cons byte more =>
      have blank : Cursor.isBlankByte byte = true :=
        all byte (List.mem_append_right _ (by rw [hrest]; exact List.mem_cons_self))
      have other : Cursor.isBlankByte byte = false := noBlank byte (by rw [hrest]; rfl)
      rw [blank] at other
      cases other

section Reader

variable [DoubleReader]

theorem decodeFirst_eq_ok_iff :
    decodeFirst c = .ok document ↔ ∃ c', readValue maxDepth c = .ok (document, c') := by
  unfold decodeFirst
  cases readValue maxDepth c with
  | error f => exact iff_of_false nofun nofun
  | ok read => simp [Except.map, Prod.ext_iff]

theorem decodeWhole_eq_ok_iff : decodeWhole c = .ok document ↔
    ∃ c', readValue maxDepth c = .ok (document, c') ∧ AreBlanks c'.rest := by
  unfold decodeWhole
  cases readValue maxDepth c with
  | error f => exact iff_of_false nofun nofun
  | ok read =>
    obtain ⟨found, behind⟩ := read
    dsimp only
    cases ended : behind.skipBlanks.peek? with
    | none => simp [← peek?_skipBlanks_iff, Prod.ext_iff, ended]
    | some byte => simp [← peek?_skipBlanks_iff, ended]

/-- A text starts with a document: it is the document of a part at the front, whatever follows
there unless it goes on with a number, and it is the document of the whole text if only blanks
follow. -/
def StartsWith (bytes : List UInt8) (document : Json) : Prop :=
  ∃ text rest, bytes = text ++ rest ∧ decodeWhole (.ofBytes text) = .ok document ∧
    (decodeWhole (.ofBytes bytes) = .ok document ↔ AreBlanks rest) ∧
    ∀ rest', Delimited rest' → decodeFirst (.ofBytes (text ++ rest')) = .ok document

theorem decodeFirst_of_decodeWhole (h : decodeWhole c = .ok document) :
    decodeFirst c = .ok document := by
  obtain ⟨c', read, -⟩ := decodeWhole_eq_ok_iff.1 h
  exact decodeFirst_eq_ok_iff.2 ⟨c', read⟩

/-- What is decoded is what the text starts with. -/
theorem startsWith_of_decodeFirst (h : decodeFirst (.ofBytes bytes) = .ok document) :
    StartsWith bytes document := by
  obtain ⟨c', read⟩ := decodeFirst_eq_ok_iff.1 h
  obtain ⟨text, -, takes⟩ := readValue_isLocal maxDepth read
  have again : ∀ rest', Delimited rest' → ∃ position,
      readValue maxDepth (.ofBytes (text ++ rest')) = .ok (document, ⟨rest', position⟩) :=
    fun rest' stop => takes.again rest' (.inr stop) ⟨1, 0⟩
  refine ⟨text, c'.rest, takes.split, ?_, ?_, fun rest' stop => ?_⟩
  · obtain ⟨position, read⟩ := again [] delimited_nil
    rw [List.append_nil] at read
    exact decodeWhole_eq_ok_iff.2 ⟨_, read, areBlanks_nil⟩
  · rw [decodeWhole_eq_ok_iff, read]
    simp
  · obtain ⟨position, read⟩ := again rest' stop
    exact decodeFirst_eq_ok_iff.2 ⟨_, read⟩

end Reader

end Json

section Reader

variable [Json.DoubleReader]

namespace Value

variable {v : Value}

theorem decode_eq_ok_iff : decode c = .ok v ↔
    ∃ document, Json.decodeFirst c = .ok document ∧ ofJson document = v := by
  unfold decode
  cases Json.decodeFirst c with
  | error f => exact iff_of_false nofun (by simp)
  | ok document => simp

theorem deserialize_eq_ok_iff : deserialize c = .ok v ↔
    ∃ document, Json.decodeWhole c = .ok document ∧ ofJson document = v := by
  unfold deserialize
  cases Json.decodeWhole c with
  | error f => exact iff_of_false nofun (by simp)
  | ok document => simp [Except.map]

end Value

/-- Decoding takes the value that a text starts with. It agrees with deserializing on every text
that holds just one value, and of any other it takes a part at the front that does, after which
anything may follow that does not go on with a number. -/
theorem Value.decode_leading (bytes : List UInt8) (v : Value) :
    (Value.deserialize (.ofBytes bytes) = .ok v → Value.decode (.ofBytes bytes) = .ok v) ∧
    (Value.decode (.ofBytes bytes) = .ok v → ∃ text rest, bytes = text ++ rest ∧
      Value.deserialize (.ofBytes text) = .ok v ∧
      (Value.deserialize (.ofBytes bytes) = .ok v ↔ Json.AreBlanks rest) ∧
      ∀ rest', Json.Delimited rest' → Value.decode (.ofBytes (text ++ rest')) = .ok v) := by
  constructor
  · intro whole
    obtain ⟨document, read, rfl⟩ := deserialize_eq_ok_iff.1 whole
    exact decode_eq_ok_iff.2 ⟨document, Json.decodeFirst_of_decodeWhole read, rfl⟩
  · intro decoded
    obtain ⟨document, read, rfl⟩ := decode_eq_ok_iff.1 decoded
    obtain ⟨text, rest, split, whole, blanks, again⟩ := Json.startsWith_of_decodeFirst read
    refine ⟨text, rest, split, deserialize_eq_ok_iff.2 ⟨document, whole, rfl⟩, ?_,
      fun rest' stop => decode_eq_ok_iff.2 ⟨document, again rest' stop, rfl⟩⟩
    constructor
    · intro deserialized
      obtain ⟨document', read', -⟩ := deserialize_eq_ok_iff.1 deserialized
      cases (Json.decodeFirst_of_decodeWhole read').symm.trans read
      exact blanks.1 read'
    · exact fun areBlanks => deserialize_eq_ok_iff.2 ⟨document, blanks.2 areBlanks, rfl⟩

end Reader

/-- A second value in a text is dropped, while deserializing refuses it, however numbers are read. -/
theorem second_value_dropped : ¬∃ _ : Json.DoubleReader, ∀ text v,
    Value.decode (.ofText text) = .ok v ↔ Value.deserialize (.ofText text) = .ok v := by
  rintro ⟨reader, same⟩
  have one : Json.IsTextOf Json.maxDepth (Json.writeCompact (.int 1)) (.int 1) :=
    (Json.Fits.int (by decide) (by decide)).compact
  have bytes : Json.Cursor.ofText "1 2" =
      ⟨Json.utf8 (Json.writeCompact (.int 1)) ++ [0x20, 0x32], ⟨1, 0⟩⟩ :=
    Json.ofText_ofList ['1', ' ', '2']
  obtain ⟨position, read⟩ :=
    one.reads [0x20, 0x32] (Json.delimited_cons (by decide) (by decide)) ⟨1, 0⟩
  rw [← bytes] at read
  have decoded : Value.decode (.ofText "1 2") = .ok (.int 1) :=
    Value.decode_eq_ok_iff.2 ⟨.int 1, Json.decodeFirst_eq_ok_iff.2 ⟨_, read⟩, rfl⟩
  obtain ⟨document, whole, -⟩ := Value.deserialize_eq_ok_iff.1 ((same _ _).1 decoded)
  obtain ⟨behind, read', blanks⟩ := Json.decodeWhole_eq_ok_iff.1 whole
  cases read.symm.trans read'
  have second : (0x32 : UInt8) ∈ [0x20, 0x32] := by decide
  exact absurd (blanks 0x32 second) (by decide)

/-! ### Input files -/

namespace InputSelection

/-- The parts of a file that hold one document each. -/
def parts (i : InputSelection) (text : String) : List (List Char) :=
  if i.isByLine then (Text.lines text.toList).filter fun line => !line.all Text.isBlank
  else [text.toList]

variable [Json.DoubleReader]

theorem startsWith_of_decode {context origin : String} {part : List Char} {d : Document}
    (h : decode context origin (String.ofList part) = .ok d) :
    Json.StartsWith (Json.utf8 part) d.content := by
  unfold decode at h
  split at h
  · next content read =>
    cases h
    rw [Json.ofText_ofList] at read
    exact Json.startsWith_of_decodeFirst read
  · cases h

theorem startsWith_of_decodeLines {path : String} {number : Nat} {lines : List (List Char)}
    {documents : List Document} (h : decodeLines path number lines = .ok documents) :
    List.Forall₂ (fun part d => Json.StartsWith (Json.utf8 part) d.content)
      (lines.filter fun line => !line.all Text.isBlank) documents := by
  induction lines generalizing number documents with
  | nil =>
    cases h
    exact .nil
  | cons line lines ih =>
    rw [decodeLines] at h
    split at h
    · next blank =>
      rw [List.filter_cons_of_neg (by rw [blank]; decide)]
      exact ih h
    · next filled =>
      rw [List.filter_cons_of_pos (by rw [Bool.eq_false_iff.2 filled]; rfl)]
      dsimp only [bind, Except.bind] at h
      split at h
      · cases h
      · next d first =>
        split at h
        · cases h
        · next others more =>
          cases h
          exact .cons (startsWith_of_decode first) (ih more)

theorem decodeFile_startsWith (i : InputSelection) {path text : String}
    {documents : List Document} (h : i.decodeFile path text = .ok documents) :
    List.Forall₂ (fun part d => Json.StartsWith (Json.utf8 part) d.content) (i.parts text)
      documents := by
  unfold decodeFile at h
  unfold parts
  split at h
  · next byLine =>
    rw [if_pos byLine]
    exact startsWith_of_decodeLines h
  · next whole =>
    rw [if_neg whole]
    cases hdecode : decode "failed to parse JSON source file" path text with
    | error e =>
      rw [hdecode] at h
      cases h
    | ok d =>
      rw [hdecode] at h
      cases h
      rw [← String.ofList_toList (s := text)] at hdecode
      exact .cons (startsWith_of_decode hdecode) .nil

end InputSelection

end LazyBinding
