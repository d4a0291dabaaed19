import LazyBinding.Json.Writer
import LazyBinding.Json.Reader

/-!
# Written strings read back

The reader sees the bytes of a text, of which a character may take several. No byte of a character
beyond ASCII is mistaken for a quote, a backslash or a control character, and every escape stands
for the character it was written for.
-/
namespace LazyBinding.Json

variable {α : Type} {v : α} {rest bytes more behind : List UInt8}

/-- The bytes of characters. -/
def utf8 (text : List Char) : List UInt8 := text.flatMap String.utf8EncodeChar

@[simp] theorem utf8_nil : utf8 [] = [] := rfl

theorem utf8_cons (c : Char) (text : List Char) :
    utf8 (c :: text) = String.utf8EncodeChar c ++ utf8 text :=
  List.flatMap_cons

@[simp] theorem utf8_append (text text' : List Char) :
    utf8 (text ++ text') = utf8 text ++ utf8 text' :=
  List.flatMap_append

theorem toByteArray_utf8 (s : String) : (utf8 s.toList).toByteArray = s.toByteArray :=
  String.utf8Encode_toList

theorem ofText_ofList (text : List Char) :
    Cursor.ofText (String.ofList text) = ⟨utf8 text, 1, 0⟩ := by
  unfold Cursor.ofText Cursor.ofBytes String.toUTF8
  rw [String.toByteArray_ofList, List.utf8Encode, List.data_toByteArray]
  rfl

theorem fromUTF8?_utf8 (s : String) : String.fromUTF8? (utf8 s.toList).toByteArray = some s := by
  rw [toByteArray_utf8, String.fromUTF8?, dif_pos s.isValidUTF8]
  rfl

/-- Wherever these bytes stand, a reader finds a value in them and stops in front of `rest`. -/
def Reads (reader : Cursor → Except Fault (α × Cursor)) (bytes : List UInt8) (v : α)
    (rest : List UInt8) : Prop :=
  ∀ position, ∃ position', reader ⟨bytes, position⟩ = .ok (v, ⟨rest, position'⟩)

@[simp] theorem Cursor.peek?_cons (byte : UInt8) (position : Position) :
    (⟨byte :: rest, position⟩ : Cursor).peek? = some byte :=
  rfl

@[simp] theorem Cursor.advance_cons (byte : UInt8) (position : Position) :
    (⟨byte :: rest, position⟩ : Cursor).advance = ⟨rest, position.after byte⟩ :=
  rfl

/-! ### The steps of the string reader -/

/-- Reading the inside of a string. -/
abbrev ReadsInside (mode : StringMode) : List UInt8 → List UInt8 → List UInt8 → Prop :=
  Reads fun c => readStringBytes mode c.position c.rest

variable {mode mode' : StringMode} {byte : UInt8}

theorem ReadsInside.done (h : stringStep byte mode = .done) :
    ReadsInside mode (byte :: rest) [] rest := by
  intro position
  dsimp only
  rw [readStringBytes, h]
  exact ⟨_, rfl⟩

theorem ReadsInside.go (h : stringStep byte mode = .go mode' bytes)
    (reads : ReadsInside mode' behind more rest) :
    ReadsInside mode (byte :: behind) (bytes ++ more) rest := by
  intro position
  obtain ⟨position', read⟩ := reads (position.after byte)
  dsimp only at read ⊢
  rw [readStringBytes, h]
  dsimp only
  rw [read]
  exact ⟨position', rfl⟩

theorem ReadsInside.skip (h : stringStep byte mode = .go mode' [])
    (reads : ReadsInside mode' behind more rest) : ReadsInside mode (byte :: behind) more rest :=
  ReadsInside.go h reads

/-- A byte that stands for itself in a string. -/
def IsPlain (byte : UInt8) : Prop := byte ≠ 0x22 ∧ byte ≠ 0x5C ∧ ¬byte < 0x20

theorem IsPlain.step (h : IsPlain byte) : stringStep byte .plain = .go .plain [byte] := by
  obtain ⟨quote, backslash, control⟩ := h
  unfold stringStep
  rw [if_neg (mt beq_iff_eq.1 quote), if_neg (mt beq_iff_eq.1 backslash), if_neg control]

theorem ReadsInside.plain (plain : ∀ byte ∈ bytes, IsPlain byte)
    (reads : ReadsInside .plain behind more rest) :
    ReadsInside .plain (bytes ++ behind) (bytes ++ more) rest := by
  induction bytes with
  | nil => exact reads
  | cons byte bytes ih =>
    obtain ⟨first, others⟩ := List.forall_mem_cons.1 plain
    have reads' : ReadsInside .plain (byte :: (bytes ++ behind)) ([byte] ++ (bytes ++ more)) rest :=
      .go first.step (ih others)
    exact reads'

/-! ### Characters -/

theorem utf8EncodeChar_ascii {c : Char} (h : c.toNat < 0x80) :
    String.utf8EncodeChar c = [UInt8.ofNat c.toNat] := by
  unfold String.utf8EncodeChar
  exact if_pos (Nat.le_of_lt_succ h)

theorem utf8_ascii {text : List Char} (h : ∀ c ∈ text, c.toNat < 0x80) :
    utf8 text = text.map fun c => UInt8.ofNat c.toNat := by
  induction text with
  | nil => rfl
  | cons c text ih =>
    obtain ⟨first, others⟩ := List.forall_mem_cons.1 h
    rw [utf8_cons, utf8EncodeChar_ascii first, ih others]
    rfl

theorem le_of_mem_utf8EncodeChar {c : Char} (h : ¬c.toNat < 0x80) :
    ∀ byte ∈ String.utf8EncodeChar c, 0x80 ≤ byte.toNat := by
  have large : ¬c.val.toNat ≤ 127 := by
    intro small
    exact h (Nat.lt_succ_of_le small)
  intro byte hbyte
  unfold String.utf8EncodeChar at hbyte
  dsimp only at hbyte
  rw [if_neg large] at hbyte
  split at hbyte
  · simp only [List.mem_cons, List.not_mem_nil, or_false] at hbyte
    obtain rfl | rfl := hbyte <;> rw [UInt8.toNat_ofNat'] <;> omega
  · split at hbyte
    · simp only [List.mem_cons, List.not_mem_nil, or_false] at hbyte
      obtain rfl | rfl | rfl := hbyte <;> rw [UInt8.toNat_ofNat'] <;> omega
    · simp only [List.mem_cons, List.not_mem_nil, or_false] at hbyte
      obtain rfl | rfl | rfl | rfl := hbyte <;> rw [UInt8.toNat_ofNat'] <;> omega

/-- Every byte of a character that needs no escape stands for itself. -/
theorem isPlain_utf8EncodeChar {c : Char} (quote : c ≠ '"') (backslash : c ≠ '\\')
    (control : ¬c.toNat < 0x20) : ∀ byte ∈ String.utf8EncodeChar c, IsPlain byte := by
  intro byte hbyte
  by_cases ascii : c.toNat < 0x80
  · rw [utf8EncodeChar_ascii ascii, List.mem_singleton] at hbyte
    have htoNat : byte.toNat = c.toNat := by
      rw [hbyte, UInt8.toNat_ofNat', Nat.mod_eq_of_lt (by omega)]
    refine ⟨?_, ?_, ?_⟩
    · rintro rfl
      exact quote (Char.toNat_inj.1 htoNat.symm)
    · rintro rfl
      exact backslash (Char.toNat_inj.1 htoNat.symm)
    · rw [UInt8.lt_iff_toNat_lt, htoNat]
      exact control
  · have large := le_of_mem_utf8EncodeChar ascii byte hbyte
    refine ⟨?_, ?_, ?_⟩
    · rintro rfl
      exact absurd large (by decide)
    · rintro rfl
      exact absurd large (by decide)
    · rw [UInt8.lt_iff_toNat_lt]
      change ¬byte.toNat < 0x20
      omega

theorem digitChar_ascii : ∀ k < 16, (Nat.digitChar k).toNat < 0x80 := by decide

theorem hexValue?_control : ∀ n < 0x20,
    hexValue? [UInt8.ofNat (Nat.digitChar (n % 16)).toNat,
      UInt8.ofNat (Nat.digitChar (n / 16)).toNat, 0x30, 0x30] = some n := by
  decide

theorem ReadsInside.control {c : Char} (h : c.toNat < 0x20)
    (reads : ReadsInside .plain behind more rest) :
    ReadsInside .plain
      (utf8 ['\\', 'u', '0', '0', Nat.digitChar (c.toNat / 16), Nat.digitChar (c.toNat % 16)] ++
        behind) (String.utf8EncodeChar c ++ more) rest := by
  have last : stringStep (UInt8.ofNat (Nat.digitChar (c.toNat % 16)).toNat)
      (.hex none [UInt8.ofNat (Nat.digitChar (c.toNat / 16)).toNat, 0x30, 0x30]) =
        .go .plain (String.utf8EncodeChar c) := by
    have noLow : isLowSurrogate c.toNat = false := by
      simp only [isLowSurrogate, Bool.and_eq_false_iff, decide_eq_false_iff_not]
      omega
    have noHigh : isHighSurrogate c.toNat = false := by
      simp only [isHighSurrogate, Bool.and_eq_false_iff, decide_eq_false_iff_not]
      omega
    unfold stringStep
    dsimp only
    rw [if_neg (by exact Nat.lt_irrefl 4), hexValue?_control _ h]
    dsimp only [hexStep]
    rw [noLow, noHigh, Char.ofNat_toNat]
    rfl
  have ascii : ∀ d ∈ ['\\', 'u', '0', '0', Nat.digitChar (c.toNat / 16),
      Nat.digitChar (c.toNat % 16)], d.toNat < 0x80 := by
    simp only [List.forall_mem_cons]
    exact ⟨by decide, by decide, by decide, by decide, digitChar_ascii _ (by omega),
      digitChar_ascii _ (by omega), List.forall_mem_nil _⟩
  rw [utf8_ascii ascii]
  exact .skip rfl (.skip rfl (.skip rfl (.skip rfl (.skip rfl (.go last reads)))))

theorem ReadsInside.escape {c : UInt8} (h : stringStep byte .escaped = .go .plain [c])
    (reads : ReadsInside .plain behind more rest) :
    ReadsInside .plain (0x5C :: byte :: behind) (c :: more) rest :=
  .skip rfl (.go h reads)

theorem ReadsInside.char (c : Char) (reads : ReadsInside .plain behind more rest) :
    ReadsInside .plain (utf8 (writeChar c) ++ behind) (String.utf8EncodeChar c ++ more) rest := by
  unfold writeChar
  split
  case h_8 quote backslash _ _ _ _ _ =>
    split
    · next low => exact .control low reads
    · next high =>
      rw [utf8_cons, utf8_nil, List.append_nil]
      exact .plain (isPlain_utf8EncodeChar quote backslash high) reads
  all_goals exact .escape rfl reads

theorem readsInside_written (text : List Char) :
    ReadsInside .plain (utf8 (text.flatMap writeChar) ++ 0x22 :: rest) (utf8 text) rest := by
  induction text with
  | nil => exact .done rfl
  | cons c text ih =>
    rw [List.flatMap_cons, utf8_append, List.append_assoc, utf8_cons]
    exact .char c ih

/-- A written string is read back; the reader starts behind the opening quote. -/
theorem readString_written (s : String) (rest : List UInt8) (position : Position) :
    ∃ position', readString (⟨utf8 (writeString s) ++ rest, position⟩ : Cursor).advance =
      .ok (s, ⟨rest, position'⟩) := by
  have written : utf8 (writeString s) ++ rest =
      0x22 :: (utf8 (s.toList.flatMap writeChar) ++ 0x22 :: rest) := by
    rw [writeString, utf8_append, utf8_cons, List.append_assoc]
    rfl
  obtain ⟨position', read⟩ := readsInside_written s.toList (position.after 0x22)
  refine ⟨position', ?_⟩
  dsimp only at read
  rw [written, Cursor.advance_cons, readString]
  dsimp only
  rw [read]
  dsimp only
  rw [fromUTF8?_utf8]

end LazyBinding.Json
