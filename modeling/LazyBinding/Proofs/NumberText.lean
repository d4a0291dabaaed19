import LazyBinding.Proofs.StringText

/-!
# Written numerals read back

A numeral is digits, perhaps a point with digits behind it, and perhaps a signed exponent. The
reader takes all of it, as long as nothing follows that could belong to it.
-/
namespace LazyBinding.Json

variable {c : Char} {digits whole fraction : List Char} {rest : List UInt8}

/-! ### Digits -/

def AreDigits (text : List Char) : Prop := ∀ c ∈ text, c.isDigit = true

theorem areDigits_toDigits (n : Nat) : AreDigits (Nat.toDigits 10 n) :=
  fun _ h => Nat.isDigit_of_mem_toDigits (by decide) (by decide) h

theorem isDigit_bounds (h : c.isDigit = true) : 48 ≤ c.toNat ∧ c.toNat ≤ 57 := by
  rw [Char.isDigit, Bool.and_eq_true, decide_eq_true_iff, decide_eq_true_iff] at h
  exact h

/-- The byte of an ASCII character. -/
def byteOf (c : Char) : UInt8 := UInt8.ofNat c.toNat

theorem toNat_byteOf (h : c.isDigit = true) : (byteOf c).toNat = c.toNat := by
  have := isDigit_bounds h
  rw [byteOf, UInt8.toNat_ofNat', Nat.mod_eq_of_lt (by omega)]

theorem isDigitByte_byteOf (h : c.isDigit = true) : isDigitByte (byteOf c) = true := by
  have := isDigit_bounds h
  simp only [isDigitByte, Bool.and_eq_true, decide_eq_true_iff, UInt8.le_iff_toNat_le,
    toNat_byteOf h]
  exact this

theorem AreDigits.utf8_eq (h : AreDigits digits) : utf8 digits = digits.map byteOf :=
  utf8_ascii fun c hc => by
    have := isDigit_bounds (h c hc)
    omega

/-- The first of these bytes, if there is one, is no digit. -/
def NoDigit (rest : List UInt8) : Prop := ∀ byte ∈ rest.head?, isDigitByte byte = false

theorem takeDigits_append {taken : List UInt8} (h : ∀ byte ∈ taken, isDigitByte byte = true)
    (stop : NoDigit rest) (position : Position) :
    ∃ position', takeDigits ⟨taken ++ rest, position⟩ =
      (taken.map fun d => d.toNat - 0x30, ⟨rest, position'⟩) := by
  have outside : rest.takeWhile isDigitByte = [] := by
    cases rest with
    | nil => rfl
    | cons byte rest => exact List.takeWhile_cons_of_neg (by rw [stop byte rfl]; decide)
  unfold takeDigits Cursor.skip
  dsimp only
  rw [List.takeWhile_append_of_pos h, outside, List.append_nil, List.drop_left' rfl]
  exact ⟨_, rfl⟩

def digitValues (digits : List Char) : List Nat := digits.map fun c => c.toNat - 48

theorem digitsValue_eq (digits : List Char) :
    Decimal.digitsValue (digitValues digits) = Nat.ofDigitChars 10 digits 0 :=
  List.foldl_map

theorem takeDigits_digits (h : AreDigits digits) (stop : NoDigit rest) (position : Position) :
    ∃ position', takeDigits ⟨utf8 digits ++ rest, position⟩ =
      (digitValues digits, ⟨rest, position'⟩) := by
  have inside : ∀ byte ∈ digits.map byteOf, isDigitByte byte = true := by
    intro byte hbyte
    obtain ⟨c, hc, rfl⟩ := List.mem_map.1 hbyte
    exact isDigitByte_byteOf (h c hc)
  have values : (digits.map byteOf).map (fun d => d.toNat - 0x30) = digitValues digits := by
    rw [List.map_map]
    exact List.map_congr_left fun c hc => congrArg (· - 48) (toNat_byteOf (h c hc))
  rw [h.utf8_eq, ← values]
  exact takeDigits_append inside stop position

/-! ### The parts of a numeral -/

/-- The digits in front of a point. -/
structure IsWhole (digits : List Char) : Prop where
  areDigits : AreDigits digits
  nonempty : digits ≠ []
  /-- Only a lone zero starts with a zero. -/
  leading : digits = ['0'] ∨ digits.head? ≠ some '0'

theorem readWhole_lone (stop : NoDigit rest) : Reads readWhole (0x30 :: rest) [0] rest := by
  intro position
  refine ⟨position.after 0x30, ?_⟩
  cases rest with
  | nil => rfl
  | cons byte rest =>
    have noDigit : isDigitByte byte = false := stop byte rfl
    change (if isDigitByte byte then _ else _) = _
    rw [noDigit]
    rfl

theorem readWhole_nonzero {byte : UInt8} (nonzero : byte ≠ 0x30) (digit : isDigitByte byte = true)
    (position : Position) :
    readWhole ⟨byte :: rest, position⟩ = .ok (takeDigits ⟨byte :: rest, position⟩) := by
  rw [readWhole, Cursor.peek?_cons]
  dsimp only
  rw [if_neg (mt beq_iff_eq.1 nonzero), if_pos digit]

theorem readWhole_digits (h : IsWhole whole) (stop : NoDigit rest) :
    Reads readWhole (utf8 whole ++ rest) (digitValues whole) rest := by
  intro position
  by_cases lone : whole = ['0']
  · rw [lone]
    exact readWhole_lone stop position
  · have nonzero := h.leading.resolve_left lone
    obtain ⟨c, digits, rfl⟩ := List.exists_cons_of_ne_nil h.nonempty
    have digit := h.areDigits c List.mem_cons_self
    have leading : byteOf c ≠ 0x30 := by
      intro zero
      apply nonzero
      have htoNat := toNat_byteOf digit
      rw [zero] at htoNat
      exact congrArg some (Char.toNat_inj.1 htoNat.symm)
    obtain ⟨position', taken⟩ := takeDigits_digits h.areDigits stop position
    refine ⟨position', ?_⟩
    rw [h.areDigits.utf8_eq, List.map_cons] at taken ⊢
    rw [List.cons_append, readWhole_nonzero leading (isDigitByte_byteOf digit)]
    exact congrArg Except.ok taken

theorem digitValues_isEmpty (nonempty : digits ≠ []) : (digitValues digits).isEmpty = false := by
  rw [digitValues, List.isEmpty_map, List.isEmpty_eq_false_iff]
  exact nonempty

theorem readFraction_digits (h : AreDigits digits) (nonempty : digits ≠ []) (stop : NoDigit rest) :
    Reads readFraction (utf8 ('.' :: digits) ++ rest) (some (digitValues digits)) rest := by
  intro position
  have written : utf8 ('.' :: digits) ++ rest = 0x2E :: (utf8 digits ++ rest) := rfl
  obtain ⟨position', taken⟩ := takeDigits_digits h stop (position.after 0x2E)
  refine ⟨position', ?_⟩
  rw [written, readFraction, Cursor.peek?_cons, Cursor.advance_cons, if_pos (by decide), taken]
  dsimp only
  rw [digitValues_isEmpty nonempty]
  rfl

theorem readFraction_none (noPoint : rest.head? ≠ some 0x2E) :
    Reads readFraction rest none rest := by
  intro position
  refine ⟨position, if_neg ?_⟩
  exact mt beq_iff_eq.1 noPoint

theorem ofDigitChars_cons (c : Char) (digits : List Char) (value : Nat) :
    Nat.ofDigitChars 10 (c :: digits) value =
      Nat.ofDigitChars 10 digits (10 * value + (c.toNat - 48)) := by
  rw [Nat.ofDigitChars_cons, show '0'.toNat = 48 from rfl]

theorem le_ofDigitChars (digits : List Char) (value : Nat) :
    value ≤ Nat.ofDigitChars 10 digits value := by
  rw [Nat.ofDigitChars_eq_ofDigitChars_zero]
  have : 0 < 10 ^ digits.length := Nat.pow_pos (by decide)
  calc value ≤ 10 ^ digits.length * value := Nat.le_mul_of_pos_left _ this
    _ ≤ _ := Nat.le_add_right _ _

theorem readExponentDigits_end (stop : NoDigit rest) {value : Nat} (position : Position) :
    readExponentDigits value position rest = (value, false, ⟨rest, position⟩) := by
  cases rest with
  | nil => rfl
  | cons byte rest =>
    have noDigit : isDigitByte byte = false := stop byte rfl
    rw [readExponentDigits, noDigit]
    rfl

/-- An exponent that stays below the largest one is read to its end. -/
theorem readExponentDigits_digits (h : AreDigits digits) (stop : NoDigit rest) {value : Nat}
    (small : Nat.ofDigitChars 10 digits value ≤ maxExponent) (position : Position) :
    ∃ position', readExponentDigits value position (utf8 digits ++ rest) =
      (Nat.ofDigitChars 10 digits value, false, ⟨rest, position'⟩) := by
  rw [h.utf8_eq]
  induction digits generalizing value position with
  | nil => exact ⟨position, readExponentDigits_end stop position⟩
  | cons c digits ih =>
    obtain ⟨digit, others⟩ := List.forall_mem_cons.1 h
    rw [ofDigitChars_cons] at small ⊢
    have below := Nat.le_trans (le_ofDigitChars digits _) small
    rw [List.map_cons, List.cons_append, readExponentDigits, if_pos (isDigitByte_byteOf digit)]
    dsimp only
    rw [toNat_byteOf digit, if_neg (Nat.not_lt.2 below)]
    exact ih others small _

theorem readExponent_digits (isZero : Bool) (h : AreDigits digits) (nonempty : digits ≠ [])
    (stop : NoDigit rest) (small : Nat.ofDigitChars 10 digits 0 ≤ maxExponent) (negative : Bool) :
    Reads (readExponent isZero)
      (utf8 ('e' :: (if negative then '-' else '+') :: digits) ++ rest)
      (some (if negative then -(Nat.ofDigitChars 10 digits 0 : Int)
        else Nat.ofDigitChars 10 digits 0)) rest := by
  intro position
  obtain ⟨c, others, rfl⟩ := List.exists_cons_of_ne_nil nonempty
  have digit := h c List.mem_cons_self
  have written : utf8 ('e' :: (if negative then '-' else '+') :: c :: others) ++ rest =
      0x65 :: (if negative then 0x2D else 0x2B) :: byteOf c :: (others.map byteOf ++ rest) := by
    rw [utf8_cons, utf8_cons, h.utf8_eq]
    cases negative <;> rfl
  obtain ⟨position', read⟩ := readExponentDigits_digits h stop small
    ((position.after 0x65).after (if negative then 0x2D else 0x2B))
  rw [h.utf8_eq, List.map_cons, List.cons_append] at read
  refine ⟨position', ?_⟩
  rw [written]
  cases negative with
  | false =>
    rw [if_neg (by decide)] at read ⊢
    simp [readExponent, isDigitByte_byteOf digit, read]
  | true =>
    rw [if_pos rfl] at read ⊢
    simp [readExponent, isDigitByte_byteOf digit, read]

theorem readExponent_none {isZero : Bool} (noLetter : rest.head? ≠ some 0x65)
    (noCapital : rest.head? ≠ some 0x45) : Reads (readExponent isZero) rest none rest := by
  intro position
  refine ⟨position, if_neg ?_⟩
  rw [Bool.or_eq_true, beq_iff_eq, beq_iff_eq]
  exact not_or.2 ⟨noLetter, noCapital⟩

/-! ### Numerals -/

/-- Nothing that could belong to a number follows it. -/
def Delimited (rest : List UInt8) : Prop :=
  ∀ byte ∈ rest.head?, isDigitByte byte = false ∧ byte ≠ 0x2E ∧ byte ≠ 0x65 ∧ byte ≠ 0x45

theorem Delimited.noDigit (h : Delimited rest) : NoDigit rest :=
  fun byte hbyte => (h byte hbyte).1

/-- The parts of a written number. -/
structure Spelling where
  whole : List Char
  fraction : Option (List Char)
  exponent : Option Int
  isWhole : IsWhole whole
  isFraction : ∀ digits ∈ fraction, AreDigits digits ∧ digits ≠ []
  isExponent : ∀ e ∈ exponent, e.natAbs ≤ maxExponent

namespace Spelling

def fractionText (p : Spelling) : List Char := p.fraction.elim [] ('.' :: ·)

def exponentText (p : Spelling) : List Char :=
  p.exponent.elim [] fun e => 'e' :: (if e < 0 then '-' else '+') :: Nat.toDigits 10 e.natAbs

def text (p : Spelling) : List Char := p.whole ++ (p.fractionText ++ p.exponentText)

/-- A lone whole part is a whole number. -/
def isLone (p : Spelling) : Bool := p.fraction.isNone && p.exponent.isNone

/-- What a spelling that is no whole number stands for. -/
def numeral (p : Spelling) : Decimal.Numeral :=
  ⟨Nat.ofDigitChars 10 (p.whole ++ p.fraction.getD []) 0,
    p.exponent.getD 0 - (p.fraction.getD []).length⟩

variable (p : Spelling)

theorem exists_digit : ∃ byte more, utf8 p.text = byte :: more ∧ isDigitByte byte = true := by
  obtain ⟨c, digits, whole⟩ := List.exists_cons_of_ne_nil p.isWhole.nonempty
  have areDigits := p.isWhole.areDigits
  rw [text, utf8_append, areDigits.utf8_eq]
  rw [whole] at areDigits ⊢
  exact ⟨byteOf c, _, rfl, isDigitByte_byteOf (areDigits c List.mem_cons_self)⟩

theorem readExponent_text (isZero : Bool) (stop : Delimited rest) :
    Reads (readExponent isZero) (utf8 p.exponentText ++ rest) p.exponent rest := by
  have small := p.isExponent
  unfold exponentText
  cases hexponent : p.exponent with
  | none =>
    apply readExponent_none
    · intro letter
      exact (stop 0x65 letter).2.2.1 rfl
    · intro capital
      exact (stop 0x45 capital).2.2.2 rfl
  | some e =>
    have magnitude := Nat.ofDigitChars_ten_toDigits (n := e.natAbs)
    have signed : (if e < 0 then -(e.natAbs : Int) else e.natAbs) = e := by
      split <;> omega
    have digits := readExponent_digits isZero (areDigits_toDigits e.natAbs)
      Nat.toDigits_ne_nil stop.noDigit (by rw [magnitude]; exact small e hexponent) (e < 0)
    rw [magnitude] at digits
    simp only [decide_eq_true_iff, signed] at digits
    exact digits

theorem exponentText_stops (stop : Delimited rest) :
    NoDigit (utf8 p.exponentText ++ rest) ∧ (utf8 p.exponentText ++ rest).head? ≠ some 0x2E := by
  unfold exponentText
  cases p.exponent with
  | none =>
    refine ⟨stop.noDigit, ?_⟩
    intro point
    exact (stop 0x2E point).2.1 rfl
  | some e =>
    constructor
    · intro byte hbyte
      cases hbyte
      decide
    · intro point
      cases point

theorem readFraction_text (stop : Delimited rest) :
    Reads readFraction (utf8 p.fractionText ++ (utf8 p.exponentText ++ rest))
      (p.fraction.map digitValues) (utf8 p.exponentText ++ rest) := by
  obtain ⟨noDigit, noPoint⟩ := p.exponentText_stops stop
  have digits := p.isFraction
  unfold fractionText
  cases hfraction : p.fraction with
  | none => exact readFraction_none noPoint
  | some fraction =>
    obtain ⟨areDigits, nonempty⟩ := digits fraction hfraction
    exact readFraction_digits areDigits nonempty noDigit

theorem readWhole_text (stop : Delimited rest) :
    Reads readWhole (utf8 p.text ++ rest) (digitValues p.whole)
      (utf8 p.fractionText ++ (utf8 p.exponentText ++ rest)) := by
  unfold text
  rw [utf8_append, utf8_append, List.append_assoc, List.append_assoc]
  refine readWhole_digits p.isWhole ?_
  unfold fractionText
  cases p.fraction with
  | none => exact (p.exponentText_stops stop).1
  | some fraction =>
    intro byte hbyte
    cases hbyte
    decide

/-- What a reader finds. -/
def written (negative : Bool) : WrittenNumber :=
  ⟨negative, digitValues p.whole, p.fraction.map digitValues, p.exponent⟩

theorem numeral_written (negative : Bool) : (p.written negative).numeral = p.numeral := by
  have digits : digitValues p.whole ++ (p.fraction.map digitValues).getD [] =
      digitValues (p.whole ++ p.fraction.getD []) := by
    cases p.fraction <;> simp [digitValues]
  have coefficient : (p.written negative).coefficient = p.numeral.coefficient := by
    rw [WrittenNumber.coefficient, written, digits, digitsValue_eq]
    rfl
  rw [WrittenNumber.numeral, coefficient]
  cases hfraction : p.fraction <;> simp [numeral, written, hfraction, digitValues]

theorem coefficient_written :
    Decimal.digitsValue (digitValues p.whole ++ (p.fraction.map digitValues).getD []) =
      p.numeral.coefficient :=
  congrArg Decimal.Numeral.coefficient (p.numeral_written false)

variable [DoubleReader]

theorem readNumber_text (negative : Bool) (stop : Delimited rest) (position : Position) :
    ∃ position', readNumber negative ⟨utf8 p.text ++ rest, position⟩ =
      match (if p.isLone then wholeNumber? negative p.numeral.coefficient else none) with
      | some n => .ok (.int n, ⟨rest, position'⟩)
      | none =>
        match DoubleReader.double? (p.written negative) with
        | some x => .ok (.float x, ⟨rest, position'⟩)
        | none => .error ((⟨rest, position'⟩ : Cursor).fault .numberOutOfRange) := by
  obtain ⟨position₁, whole⟩ := p.readWhole_text stop position
  obtain ⟨position₂, fraction⟩ := p.readFraction_text stop position₁
  obtain ⟨position₃, exponent⟩ := p.readExponent_text (p.numeral.coefficient == 0) stop position₂
  refine ⟨position₃, ?_⟩
  unfold readNumber
  rw [whole]
  dsimp only [bind, Except.bind]
  rw [fraction]
  dsimp only
  rw [coefficient_written, exponent]
  dsimp only
  rw [Option.isNone_map]
  rfl

theorem readNumber_float {negative : Bool} {x : Float} (inexact : p.isLone = false)
    (double : DoubleReader.double? (p.written negative) = some x) (stop : Delimited rest) :
    Reads (readNumber negative) (utf8 p.text ++ rest) (.float x) rest := by
  intro position
  obtain ⟨position', read⟩ := p.readNumber_text negative stop position
  rw [inexact, double] at read
  exact ⟨position', read⟩

theorem readNumber_none {negative : Bool} (inexact : p.isLone = false)
    (double : DoubleReader.double? (p.written negative) = none) (stop : Delimited rest)
    (position : Position) :
    ∃ f, readNumber negative ⟨utf8 p.text ++ rest, position⟩ = .error f := by
  obtain ⟨position', read⟩ := p.readNumber_text negative stop position
  rw [inexact, double] at read
  exact ⟨_, read⟩

theorem readNumber_int {negative : Bool} {n : Int} (lone : p.isLone = true)
    (fits : wholeNumber? negative p.numeral.coefficient = some n) (stop : Delimited rest) :
    Reads (readNumber negative) (utf8 p.text ++ rest) (.int n) rest := by
  intro position
  obtain ⟨position', read⟩ := p.readNumber_text negative stop position
  rw [if_pos lone, fits] at read
  exact ⟨position', read⟩

end Spelling

end LazyBinding.Json
