import LazyBinding.Proofs.WrittenNumber
import LazyBinding.Value.Scalar

/-!
# Texts that start with an integer

Such a text casts to the integer if that fits the 64-bit words. A larger one goes through its double,
which rounding cannot bring back into the range, and so ends at the nearest word.
-/
namespace LazyBinding

open Decimal Json

variable {negative : Bool} {m : Nat} {n : Int} {c : Char} {sign digits rest : List Char}
variable {text : String}

/-! ### Saturation -/

theorem toInt_ofIntClamp (n : Int) :
    (Int64.ofIntClamp n).toInt = max Int64.minValue.toInt (min Int64.maxValue.toInt n) := by
  have ordered : Int64.minValue.toInt ≤ Int64.maxValue.toInt := by decide
  unfold Int64.ofIntClamp
  split
  · split
    · rw [Int64.toInt_ofIntLE]
      omega
    · omega
  · omega

theorem ofIntClamp_large (h : Int64.maxValue.toInt ≤ n) : Int64.ofIntClamp n = Int64.maxValue := by
  have ordered : Int64.minValue.toInt ≤ Int64.maxValue.toInt := by decide
  apply Int64.toInt_inj.1
  rw [toInt_ofIntClamp]
  omega

theorem ofIntClamp_small (h : n ≤ Int64.minValue.toInt) : Int64.ofIntClamp n = Int64.minValue := by
  have ordered : Int64.minValue.toInt ≤ Int64.maxValue.toInt := by decide
  apply Int64.toInt_inj.1
  rw [toInt_ofIntClamp]
  omega

/-- The magnitude bits of the double `2^63`. -/
def wordLimitBits : Nat := 1086 * hiddenBit

theorem le_truncated (large : wordLimitBits ≤ m) :
    2 ^ 63 ≤ (scale (m % hiddenBit + hiddenBit) 1 ((m / hiddenBit : Nat) - 1075)).1 /
      (scale (m % hiddenBit + hiddenBit) 1 ((m / hiddenBit : Nat) - 1075)).2 := by
  have positive : 0 < hiddenBit := by decide
  have biased : 1086 ≤ m / hiddenBit := (Nat.le_div_iff_mul_le positive).2 large
  have shift : 2 ^ 11 ≤ 2 ^ (((m / hiddenBit : Nat) : Int) - 1075).toNat :=
    Nat.pow_le_pow_right (by decide) (by omega)
  rw [scale, if_pos (by omega), Nat.shiftLeft_eq, Nat.div_one]
  calc 2 ^ 63 = hiddenBit * 2 ^ 11 := by decide
    _ ≤ (m % hiddenBit + hiddenBit) * 2 ^ (((m / hiddenBit : Nat) : Int) - 1075).toNat :=
      Nat.mul_le_mul (Nat.le_add_left _ _) shift

theorem intOfFloat_large (large : wordLimitBits ≤ m) (bounded : m ≤ infinityBits) :
    intOfFloat (floatOfBits negative m) = if negative then Int64.minValue else Int64.maxValue := by
  have normal : ¬ m < hiddenBit := by
    unfold wordLimitBits at large
    unfold hiddenBit at *
    omega
  have least := Int64.toInt_minValue
  have greatest := Int64.toInt_maxValue
  rw [intOfFloat, ofFloat_floatOfBits bounded, ofBits_magnitude bounded, if_neg normal]
  by_cases infinite : m = infinityBits
  · rw [if_pos infinite]
  · rw [if_neg infinite]
    have truncated := le_truncated large
    dsimp only [Parts.truncate?, Option.getD_some]
    cases negative with
    | false =>
      rw [if_neg (by decide), if_neg (by decide)]
      apply ofIntClamp_large
      omega
    | true =>
      rw [if_pos rfl, if_pos rfl]
      apply ofIntClamp_small
      omega

/-! ### Whole numerals -/

theorem wordLimit_le_bits {a : Numeral} (whole : a.exponent = 0) (large : 2 ^ 63 ≤ a.coefficient) :
    wordLimitBits ≤ a.bits := by
  have least : (2 : ℚ) ^ (63 : Int) ≤ a.value := by
    rw [Numeral.value, whole, zpow_zero, mul_one]
    exact_mod_cast large
  have bound := Numeral.le_bits (Int.le_of_eq whole.symm) (by decide) least
  apply le_trans _ bound
  decide

/-- A whole numeral is taken exactly as long as it fits, and else saturates. -/
theorem toInt64_whole {n : LeadingNumeral} (whole : n.isWhole = true)
    (exact : n.numeral.exponent = 0) : n.toInt64 = Int64.ofIntClamp n.wholeValue := by
  have least := Int64.toInt_minValue
  have greatest := Int64.toInt_maxValue
  unfold LeadingNumeral.toInt64
  by_cases fits : Int64.minValue.toInt ≤ n.wholeValue ∧ n.wholeValue ≤ Int64.maxValue.toInt
  · rw [if_pos ⟨whole, fits⟩, Int64.ofIntClamp, dif_pos fits.1, dif_pos fits.2]
    rfl
  · have large : 2 ^ 63 ≤ n.numeral.coefficient := by
      unfold LeadingNumeral.wholeValue at fits
      split at fits <;> omega
    rw [if_neg fun h => fits h.2, LeadingNumeral.toFloat, Numeral.toFloat,
      intOfFloat_large (wordLimit_le_bits exact large) n.numeral.bits_le]
    unfold LeadingNumeral.wholeValue
    cases n.negative with
    | false =>
      rw [if_neg (by decide), if_neg (by decide)]
      refine (ofIntClamp_large ?_).symm
      omega
    | true =>
      rw [if_pos rfl, if_pos rfl]
      refine (ofIntClamp_small ?_).symm
      omega

/-! ### Reading -/

/-- A sign, which may be missing. -/
inductive IsSign : List Char → (negative : Bool) → Prop where
  | missing : IsSign [] false
  | plus : IsSign ['+'] false
  | minus : IsSign ['-'] true

/-- What ends the digits, and is neither a point nor the start of an exponent. -/
def EndsInteger (rest : List Char) : Prop :=
  ∀ c ∈ rest.head?, c.isDigit = false ∧ c ≠ '.' ∧ c ≠ 'e' ∧ c ≠ 'E'

/-- A text of blanks, a sign, digits, and a rest that cannot go on with the numeral, and the value of
the signed digits. -/
inductive StartsWithInteger (text : String) (n : Int) : Prop where
  | intro {blanks sign digits rest : List Char} {negative : Bool}
      (spelled : text.toList = blanks ++ (sign ++ (digits ++ rest)))
      (areBlanks : ∀ c ∈ blanks, Text.isBlank c = true) (isSign : IsSign sign negative)
      (areDigits : AreDigits digits) (nonempty : digits ≠ []) (ends : EndsInteger rest)
      (value : n = if negative then -(Nat.ofDigitChars 10 digits 0 : Int)
        else Nat.ofDigitChars 10 digits 0)

theorem isBlank_digit (h : c.isDigit = true) : Text.isBlank c = false := by
  have := isDigit_bounds h
  simp only [Text.isBlank, Bool.or_eq_false_iff, Bool.and_eq_false_iff, decide_eq_false_iff_not,
    beq_eq_false_iff_ne]
  omega

theorem takeSign_digit (h : c.isDigit = true) (rest : List Char) :
    LeadingNumeral.takeSign (c :: rest) = (false, c :: rest) := by
  unfold LeadingNumeral.takeSign
  split
  · next same =>
    cases same
    cases h
  · next same =>
    cases same
    cases h
  · rfl

theorem IsSign.takeSign (isSign : IsSign sign negative) (first : c.isDigit = true)
    (rest : List Char) :
    LeadingNumeral.takeSign (sign ++ c :: rest) = (negative, c :: rest) := by
  cases isSign with
  | missing => exact takeSign_digit first rest
  | plus => rfl
  | minus => rfl

theorem EndsInteger.exponent? (h : EndsInteger rest) : LeadingNumeral.exponent? rest = none := by
  cases rest with
  | nil => rfl
  | cons c rest =>
    obtain ⟨-, -, small, capital⟩ := h c rfl
    rw [LeadingNumeral.exponent?, if_neg]
    simp [small, capital]

theorem EndsInteger.takeWhile (h : EndsInteger rest) : rest.takeWhile Char.isDigit = [] := by
  cases rest with
  | nil => rfl
  | cons c rest => exact List.takeWhile_cons_of_neg (by rw [(h c rfl).1]; decide)

theorem EndsInteger.dropWhile (h : EndsInteger rest) : rest.dropWhile Char.isDigit = rest := by
  cases rest with
  | nil => rfl
  | cons c rest => exact List.dropWhile_cons_of_neg (by rw [(h c rfl).1]; decide)

theorem of?_integer (isSign : IsSign sign negative) (areDigits : AreDigits digits)
    (nonempty : digits ≠ []) (ends : EndsInteger rest) :
    LeadingNumeral.of? (sign ++ (digits ++ rest)) =
      some ⟨negative, ⟨Nat.ofDigitChars 10 digits 0, 0⟩, true⟩ := by
  obtain ⟨c, others, rfl⟩ := List.exists_cons_of_ne_nil nonempty
  have signed : LeadingNumeral.takeSign (sign ++ (c :: others ++ rest)) =
      (negative, c :: others ++ rest) :=
    isSign.takeSign (areDigits c List.mem_cons_self) (others ++ rest)
  have whole : (c :: others ++ rest).takeWhile Char.isDigit = c :: others := by
    rw [List.takeWhile_append_of_pos areDigits, ends.takeWhile, List.append_nil]
  have behind : (c :: others ++ rest).dropWhile Char.isDigit = rest := by
    rw [List.dropWhile_append_of_pos areDigits, ends.dropWhile]
  have value : digitsValue (LeadingNumeral.digitsOf (c :: others ++ [])) =
      Nat.ofDigitChars 10 (c :: others) 0 := by
    rw [List.append_nil]
    exact digitsValue_eq (c :: others)
  unfold LeadingNumeral.of?
  rw [signed]
  dsimp only
  rw [whole, behind]
  split
  · next point => exact absurd rfl (ends '.' rfl).2.1
  · dsimp only
    rw [if_neg (by simp), value, ends.exponent?]
    rfl

theorem IsSign.notBlank (isSign : IsSign sign negative) (first : c.isDigit = true)
    (rest : List Char) : Text.trimStart (sign ++ c :: rest) = sign ++ c :: rest := by
  have digit : ¬ Text.isBlank c = true := by
    rw [isBlank_digit first]
    decide
  cases isSign with
  | missing => exact List.dropWhile_cons_of_neg digit
  | plus => rfl
  | minus => rfl

theorem castInt_integer (h : StartsWithInteger text n) :
    (Value.str text).castInt = Int64.ofIntClamp n := by
  cases h with
  | @intro blanks sign digits rest negative spelled areBlanks isSign areDigits nonempty ends value =>
    have trimmed : Text.trimStart text.toList = sign ++ (digits ++ rest) := by
      obtain ⟨c, others, rfl⟩ := List.exists_cons_of_ne_nil nonempty
      have core := isSign.notBlank (areDigits c List.mem_cons_self) (others ++ rest)
      rw [spelled, Text.trimStart, List.dropWhile_append_of_pos areBlanks]
      exact core
    have read : LeadingNumeral.ofText? text =
        some ⟨negative, ⟨Nat.ofDigitChars 10 digits 0, 0⟩, true⟩ := by
      rw [LeadingNumeral.ofText?, trimmed, of?_integer isSign areDigits nonempty ends]
    rw [Value.castInt, read, Option.map_some, Option.getD_some, toInt64_whole rfl rfl, value]
    rfl

theorem startsWithInteger_toString (n : Int) : StartsWithInteger (toString n) n := by
  have value : (Nat.ofDigitChars 10 (Nat.toDigits 10 n.natAbs) 0 : Int) = n.natAbs :=
    congrArg Nat.cast Nat.ofDigitChars_ten_toDigits
  have written : ∀ sign negative, IsSign sign negative →
      (toString n).toList = [] ++ (sign ++ (Nat.toDigits 10 n.natAbs ++ [])) →
      (n = if negative then -(n.natAbs : Int) else n.natAbs) → StartsWithInteger (toString n) n := by
    intro sign negative isSign spelled same
    rw [← value] at same
    refine .intro spelled ?_ isSign (areDigits_toDigits _) Nat.toDigits_ne_nil ?_ same
    · simp
    · simp [EndsInteger]
  have spelled := toList_toString n
  by_cases below : n < 0
  · rw [if_pos below] at spelled
    refine written ['-'] true .minus ?_ ?_
    · rw [spelled, List.append_nil]
      rfl
    · rw [if_pos rfl]
      omega
  · rw [if_neg below] at spelled
    refine written [] false .missing ?_ ?_
    · rw [spelled, List.append_nil]
      rfl
    · rw [if_neg (by decide)]
      omega

theorem castInt_toString (word : Int64) : (Value.str (toString word.toInt)).castInt = word := by
  have lower := word.le_toInt
  have upper := word.toInt_lt
  rw [castInt_integer (startsWithInteger_toString word.toInt)]
  apply Int64.toInt_inj.1
  rw [toInt_ofIntClamp, Int64.toInt_minValue, Int64.toInt_maxValue]
  omega

/-- A text that starts with an integer casts to it, or to the nearest end of the range of the words
if it is beyond them. So an integer that has been cast to a text casts back. -/
theorem integer_texts_saturate :
    (∀ (text : String) (n : Int), StartsWithInteger text n → ∃ word : Int64,
      (Value.str text).cast? .int = some (.int word) ∧
        word.toInt = max (-2 ^ 63) (min (2 ^ 63 - 1) n)) ∧
    ∀ word : Int64, ((Value.int word).cast? .string).bind (·.cast? .int) = some (.int word) := by
  constructor
  · intro text n h
    refine ⟨Int64.ofIntClamp n, ?_, ?_⟩
    · rw [← castInt_integer h]
      rfl
    · rw [toInt_ofIntClamp, Int64.toInt_minValue, Int64.toInt_maxValue]
  · intro word
    change some (Value.int (Value.str (toString word.toInt)).castInt) = some (.int word)
    rw [castInt_toString]

/-- One below the least word, with a zero in front and a unit behind it. -/
theorem startsWithInteger_deep :
    StartsWithInteger "\t -09223372036854775809m" (-9223372036854775809) := by
  have spelled : "\t -09223372036854775809m".toList =
      ['\t', ' '] ++ (['-'] ++ ("09223372036854775809".toList ++ ['m'])) := by decide
  refine .intro spelled ?_ .minus ?_ ?_ ?_ ?_
  · exact List.all_eq_true.1 (by decide)
  · exact List.all_eq_true.1 (by decide)
  · decide
  · simp [EndsInteger]
  · decide

theorem deep_integer_saturates :
    StartsWithInteger "\t -09223372036854775809m" (-9223372036854775809) ∧
      ∃ word : Int64, (Value.str "\t -09223372036854775809m").cast? .int = some (.int word) ∧
        word.toInt = max (-2 ^ 63) (min (2 ^ 63 - 1) (-9223372036854775809)) :=
  ⟨startsWithInteger_deep, integer_texts_saturate.1 _ _ startsWithInteger_deep⟩

end LazyBinding
