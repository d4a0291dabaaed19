import LazyBinding.Accessor
import Mathlib

/-!
# Names of accessors

The words of the accessors differ in their first letters, so that a name belongs to one accessor at
most, in whatever order they are tried. The name of an accessor for a field reads back if function
case leaves no small letter in front: it capitalizes ASCII letters alone, while a small letter is
one by the Unicode property. Snake case undoes function case on plain names: words of small letters
and digits that are set apart by single underscores.
-/
namespace LazyBinding.Accessor

variable {a b : Accessor} {field name suffix rest : String} {c : Char} {before after : Option Char}
variable {part others more words : List Char} {order : List Accessor}

/-! ### Reading a name -/

theorem suffix?_eq_some_iff :
    a.suffix? name = some suffix ↔ name = a.word ++ suffix ∧
      ∃ c ∈ suffix.toList.head?, Text.isLowercase c = false := by
  unfold suffix?
  constructor
  · intro h
    split at h
    · next starts =>
      obtain ⟨rest, split⟩ := List.isPrefixOf_iff_prefix.1 starts
      have dropped : name.toList.drop a.word.length = rest := by
        rw [← split, ← String.length_toList, List.drop_left]
      rw [dropped] at h
      split at h
      · cases h
      · next c rest =>
        split at h
        · cases h
        · next first =>
          cases h
          refine ⟨?_, c, ?_, eq_false_of_ne_true first⟩
          · rw [← String.toList_inj, String.toList_append, String.toList_ofList, split]
          · rw [String.toList_ofList]
            rfl
    · cases h
  · rintro ⟨rfl, c, hc, first⟩
    have starts : a.word.toList.isPrefixOf (a.word ++ suffix).toList = true := by
      rw [List.isPrefixOf_iff_prefix, String.toList_append]
      exact List.prefix_append _ _
    have dropped : (a.word ++ suffix).toList.drop a.word.length = suffix.toList := by
      rw [String.toList_append, ← String.length_toList, List.drop_left]
    obtain ⟨rest, split⟩ := List.head?_eq_some_iff.1 hc
    rw [if_pos starts, dropped, split]
    dsimp only
    rw [if_neg (by rw [first]; decide), ← split, String.ofList_toList]

theorem word_injective : Function.Injective fun a : Accessor => a.word.toList.head? := by
  intro a b same
  cases a <;> cases b <;> first | rfl | exact absurd same (by decide)

theorem eq_of_word_append (split : b.word ++ suffix = a.word ++ rest) : b = a ∧ suffix = rest := by
  have nonempty : ∀ a : Accessor, a.word.toList ≠ [] := by
    intro a
    cases a <;> decide
  have same : b = a := by
    apply word_injective
    have heads := congrArg (fun name => name.toList.head?) split
    simpa only [String.toList_append, List.head?_append_of_ne_nil _ (nonempty _)] using heads
  subst same
  refine ⟨rfl, ?_⟩
  have lists := congrArg String.toList split
  rw [String.toList_append, String.toList_append] at lists
  exact String.toList_inj.1 (List.append_cancel_left lists)

theorem eq_of_suffix?_word_append (h : b.suffix? (a.word ++ rest) = some suffix) :
    b = a ∧ suffix = rest :=
  eq_of_word_append (suffix?_eq_some_iff.1 h).1.symm

/-- Reads a name as one of the listed accessors, of which the first that fits is taken. -/
def parseIn? (order : List Accessor) (name : String) : Option (Accessor × String) :=
  order.findSome? fun a => (a.suffix? name).map fun suffix => (a, suffix)

theorem suffix?_of_parseIn? (h : parseIn? order name = some (a, suffix)) :
    a ∈ order ∧ a.suffix? name = some suffix := by
  obtain ⟨b, listed, found⟩ := List.exists_of_findSome?_eq_some h
  obtain ⟨suffix', read, same⟩ := Option.map_eq_some_iff.1 found
  cases same
  exact ⟨listed, read⟩

theorem parseIn?_eq_some_iff :
    parseIn? order name = some (a, suffix) ↔ a ∈ order ∧ a.suffix? name = some suffix := by
  constructor
  · exact suffix?_of_parseIn?
  · rintro ⟨listed, read⟩
    have found : (parseIn? order name).isSome = true := by
      rw [parseIn?, List.findSome?_isSome_iff]
      exact ⟨a, listed, by rw [read]; rfl⟩
    obtain ⟨⟨b, suffix'⟩, found⟩ := Option.isSome_iff_exists.1 found
    -- whichever accessor came first is `a`, since the name has one split only
    obtain ⟨-, first⟩ := suffix?_of_parseIn? found
    obtain ⟨rfl, -⟩ := suffix?_eq_some_iff.1 read
    obtain ⟨rfl, rfl⟩ := eq_of_suffix?_word_append first
    exact found

theorem parse?_eq_some_iff : parse? name = some (a, suffix) ↔ a.suffix? name = some suffix := by
  have listed : a ∈ all := by cases a <;> decide
  have inOrder : parse? name = parseIn? all name := rfl
  rw [inOrder, parseIn?_eq_some_iff, and_iff_right listed]

/-- Which accessors are tried, and in which order, decides only whether the one that a name belongs
to is found. -/
theorem parseIn?_of_parse? (h : parse? name = some (a, suffix)) (order : List Accessor) :
    parseIn? order name = if a ∈ order then some (a, suffix) else none := by
  have read : a.suffix? name = some suffix := parse?_eq_some_iff.1 h
  split
  · next listed => exact parseIn?_eq_some_iff.2 ⟨listed, read⟩
  · next unlisted =>
    rw [Option.eq_none_iff_forall_ne_some]
    rintro ⟨b, suffix'⟩ found
    obtain ⟨listed, other⟩ := suffix?_of_parseIn? found
    obtain ⟨rfl, -⟩ := suffix?_eq_some_iff.1 read
    obtain ⟨rfl, -⟩ := eq_of_suffix?_word_append other
    exact unlisted listed

theorem parse?_name (a : Accessor) (field : String) :
    parse? (a.name field) = some (a, functionCase field) ∨ parse? (a.name field) = none := by
  cases found : parse? (a.name field) with
  | none => exact Or.inr rfl
  | some answer =>
    obtain ⟨b, suffix⟩ := answer
    obtain ⟨rfl, rfl⟩ := eq_of_suffix?_word_append (parse?_eq_some_iff.1 found)
    exact Or.inl rfl

theorem parse?_name_eq_none_iff :
    parse? (a.name field) = none ↔
      ∀ c ∈ (functionCase field).toList.head?, Text.isLowercase c = true := by
  constructor
  · intro h c hc
    apply Classical.byContradiction
    intro first
    have read : a.suffix? (a.name field) = some (functionCase field) :=
      suffix?_eq_some_iff.2 ⟨rfl, c, hc, eq_false_of_ne_true first⟩
    rw [parse?_eq_some_iff.2 read] at h
    cases h
  · intro h
    refine (parse?_name a field).resolve_left fun found => ?_
    obtain ⟨-, c, hc, first⟩ := suffix?_eq_some_iff.1 (parse?_eq_some_iff.1 found)
    rw [h c hc] at first
    cases first

/-! ### Plain names -/

/-- A small letter or a digit. -/
def IsSmall (c : Char) : Prop := c.isLower = true ∨ c.isDigit = true

/-- Words with single underscores between them. A word is a small letter with small letters and
digits behind it; only the last one may be a letter alone. -/
inductive AreWords : List Char → Prop where
  | last {c : Char} {others : List Char} (first : c.isLower = true)
      (small : ∀ d ∈ others, IsSmall d) : AreWords (c :: others)
  | joined {c : Char} {others words : List Char} (first : c.isLower = true)
      (small : ∀ d ∈ others, IsSmall d) (long : others ≠ []) (more : AreWords words) :
      AreWords (c :: others ++ '_' :: words)

/-- Underscores in front of words. -/
def IsPlain (field : String) : Prop :=
  ∃ (underscores : Nat) (words : List Char),
    AreWords words ∧ field = String.ofList (List.replicate underscores '_' ++ words)

theorem IsSmall.code (h : IsSmall c) :
    97 ≤ c.toNat ∧ c.toNat ≤ 122 ∨ 48 ≤ c.toNat ∧ c.toNat ≤ 57 := by
  rcases h with h | h
  · rw [Char.isLower, Bool.and_eq_true, decide_eq_true_iff, decide_eq_true_iff] at h
    exact Or.inl h
  · rw [Char.isDigit, Bool.and_eq_true, decide_eq_true_iff, decide_eq_true_iff] at h
    exact Or.inr h

theorem isUpper_code (h : c.isUpper = true) : 65 ≤ c.toNat ∧ c.toNat ≤ 90 := by
  rw [Char.isUpper, decide_eq_true_iff] at h
  exact h

theorem IsSmall.notUpper (h : IsSmall c) : c.isUpper = false := by
  apply eq_false_of_ne_true
  intro upper
  have := h.code
  have := isUpper_code upper
  omega

theorem IsSmall.ne_underscore (h : IsSmall c) : c ≠ '_' := by
  rintro rfl
  have := h.code
  revert this
  decide

theorem isLowercase_of_isUpper (h : c.isUpper = true) : Text.isLowercase c = false := by
  have := isUpper_code h
  rw [Text.isLowercase, if_pos (by omega)]
  exact eq_false_of_ne_true fun lower => Char.not_isLower_of_isUpper h lower

theorem isUpper_toUpper (h : c.isLower = true) : c.toUpper.isUpper = true := by
  rw [Char.isUpper_toUpper_eq_isAlpha, Char.isAlpha, h, Bool.or_true]

theorem toLower_toUpper (h : c.isLower = true) : c.toUpper.toLower = c := by
  rw [Char.toLower_toUpper_eq_toLower, Char.toLower_eq_of_not_isUpper]
  exact Char.not_isUpper_of_isLower h

/-- Capitals are ASCII and small letters are not, so that a small letter beyond ASCII stays one. -/
theorem isLowercase_toUpper_iff :
    Text.isLowercase c.toUpper = true ↔ 0x80 ≤ c.toNat ∧ Text.isLowercase c = true := by
  by_cases lower : c.isLower = true
  · have ascii := IsSmall.code (Or.inl lower)
    rw [isLowercase_of_isUpper (isUpper_toUpper lower)]
    constructor
    · intro h
      cases h
    · rintro ⟨wide, -⟩
      omega
  · rw [Char.toUpper_eq_of_not_isLower lower]
    constructor
    · intro h
      refine ⟨?_, h⟩
      by_contra narrow
      rw [Text.isLowercase, if_pos (by omega)] at h
      exact lower h
    · exact And.right

/-! ### Function case -/

theorem capitalizeWords_small (small : ∀ c ∈ part, IsSmall c) (more : List Char) :
    capitalizeWords false (part ++ more) = part ++ capitalizeWords false more := by
  induction part with
  | nil => rfl
  | cons c part ih =>
    obtain ⟨first, later⟩ := List.forall_mem_cons.1 small
    rw [List.cons_append, capitalizeWords, if_neg (mt beq_iff_eq.1 first.ne_underscore), ih later]
    rfl

theorem capitalizeWords_word (first : c.isLower = true) (small : ∀ d ∈ others, IsSmall d)
    (more : List Char) :
    capitalizeWords true (c :: others ++ more) =
      c.toUpper :: others ++ capitalizeWords false more := by
  have hc : IsSmall c := Or.inl first
  rw [List.cons_append, capitalizeWords, if_neg (mt beq_iff_eq.1 hc.ne_underscore),
    capitalizeWords_small small]
  rfl

theorem AreWords.head (h : AreWords words) : ∃ c ∈ words.head?, c.isLower = true := by
  cases h with
  | last first small => exact ⟨_, rfl, first⟩
  | joined first small long more => exact ⟨_, rfl, first⟩

theorem head?_functionCase (field : String) :
    (functionCase field).toList.head? = field.toList.head?.map Char.toUpper := by
  unfold functionCase
  dsimp only
  rw [String.toList_ofList]
  cases field.toList with
  | nil => rfl
  | cons c rest =>
    by_cases underscore : (c == '_') = true
    · rw [List.takeWhile_cons_of_pos (p := (· == '_')) underscore, beq_iff_eq.1 underscore]
      rfl
    · rw [List.takeWhile_cons_of_neg (p := (· == '_')) underscore,
        List.dropWhile_cons_of_neg (p := (· == '_')) underscore, List.nil_append, capitalizeWords,
        if_neg underscore]
      rfl

theorem functionCase_plain (underscores : Nat) (h : AreWords words) :
    functionCase (String.ofList (List.replicate underscores '_' ++ words)) =
      String.ofList (List.replicate underscores '_' ++ capitalizeWords true words) := by
  obtain ⟨c, hc, first⟩ := h.head
  obtain ⟨others, rfl⟩ := List.head?_eq_some_iff.1 hc
  have stop : ¬(c == '_') = true := mt beq_iff_eq.1 (IsSmall.ne_underscore (Or.inl first))
  have front : ∀ d ∈ List.replicate underscores '_', (d == '_') = true := by
    intro d hd
    rw [List.eq_of_mem_replicate hd]
    rfl
  unfold functionCase
  dsimp only
  rw [String.toList_ofList, List.takeWhile_append_of_pos front, List.dropWhile_append_of_pos front,
    List.takeWhile_cons_of_neg (p := (· == '_')) stop,
    List.dropWhile_cons_of_neg (p := (· == '_')) stop, List.append_nil]

/-! ### Names read back -/

theorem parse?_name_eq_some_iff :
    parse? (a.name field) = some (a, functionCase field) ↔
      ∃ c ∈ field.toList.head?, 0x80 ≤ c.toNat → Text.isLowercase c = false := by
  have split : a.name field = a.word ++ functionCase field := rfl
  rw [parse?_eq_some_iff, suffix?_eq_some_iff, and_iff_right split, head?_functionCase]
  have kept : ∀ c, Text.isLowercase c.toUpper = false ↔
      (0x80 ≤ c.toNat → Text.isLowercase c = false) := by
    intro c
    rw [← Bool.not_eq_true, isLowercase_toUpper_iff, not_and, Bool.not_eq_true]
  constructor
  · rintro ⟨_, capital, first⟩
    obtain ⟨c, hc, rfl⟩ := Option.mem_map.1 capital
    exact ⟨c, hc, (kept c).1 first⟩
  · rintro ⟨c, hc, first⟩
    exact ⟨c.toUpper, Option.mem_map_of_mem Char.toUpper hc, (kept c).2 first⟩

/-- The name of an accessor for a field reads back exactly if the field has a name that does not
begin with a small letter beyond ASCII. A name that is read splits into the word of an accessor and
a rest in no other way, so that it is read alike in every order of the accessors, and not at all
without its own one. -/
theorem names_read_back :
    (∀ (a : Accessor) (field : String),
      parse? (a.name field) = some (a, functionCase field) ↔
        field ≠ "" ∧ ∀ c ∈ field.toList.head?, 0x80 ≤ c.toNat → Text.isLowercase c = false) ∧
    ∀ (name : String) (a : Accessor) (suffix : String), parse? name = some (a, suffix) →
      name = a.word ++ suffix ∧
      (∀ (b : Accessor) (rest : String), name = b.word ++ rest → b = a ∧ rest = suffix) ∧
      ∀ order : List Accessor,
        parseIn? order name = if a ∈ order then some (a, suffix) else none := by
  constructor
  · intro a field
    rw [parse?_name_eq_some_iff, ne_eq, ← String.toList_eq_nil_iff, ← List.head?_eq_none_iff]
    cases field.toList.head? with
    | none => simp
    | some c => simp
  · intro name a suffix read
    obtain ⟨split, -⟩ := suffix?_eq_some_iff.1 (parse?_eq_some_iff.1 read)
    refine ⟨split, ?_, parseIn?_of_parse? read⟩
    intro b rest other
    exact eq_of_word_append (other.symm.trans split)

/-- Fields that begin with the words of accessors, an underscore in front of a small letter beyond
ASCII, and the same letter without one. -/
theorem unset_names_read_back :
    parse? "unsetIsSet" = some (unset, "IsSet") ∧
      parseIn? [is, set, unset, has, get] "unsetIsSet" = some (unset, "IsSet") ∧
      parseIn? [is, set, has, get] "unsetIsSet" = none ∧
      parse? "unset_é" = some (unset, "_é") ∧ parse? "unseté" ≠ some (unset, "é") := by
  obtain ⟨back, split⟩ := names_read_back
  have narrow : ∀ c, c.toNat < 0x80 → 0x80 ≤ c.toNat → Text.isLowercase c = false := by
    intro c hc wide
    omega
  have read : parse? "unsetIsSet" = some (unset, "IsSet") :=
    (back unset "is_set").2 ⟨by decide, by rintro _ ⟨⟩; exact narrow 'i' (by decide)⟩
  obtain ⟨-, -, inOrder⟩ := split "unsetIsSet" unset "IsSet" read
  refine ⟨read, inOrder _, inOrder _, (back unset "_é").2 ⟨by decide, ?_⟩, ?_⟩
  · rintro _ ⟨⟩
    exact narrow '_' (by decide)
  · intro plain
    obtain ⟨-, wide⟩ := (back unset "é").1 plain
    exact absurd (wide 'é' rfl (by decide)) (by decide +kernel)

/-! ### Snake case -/

theorem separateWords_append (h : ∀ c ∈ part, c.isUpper = false) (before : Option Char)
    (more : List Char) :
    separateWords before (part ++ more) =
      part ++ separateWords (part.getLast?.or before) more := by
  induction part generalizing before with
  | nil => rfl
  | cons c part ih =>
    obtain ⟨first, later⟩ := List.forall_mem_cons.1 h
    have last : part.getLast?.or (some c) = (c :: part).getLast?.or before := by
      cases hpart : part.getLast? with
      | none =>
        rw [List.getLast?_eq_none_iff.1 hpart]
        rfl
      | some d => simp [List.getLast?_cons, hpart]
    rw [List.cons_append, separateWords, if_neg (by rw [first]; decide), ih later, last]
    rfl

theorem startsWord_notUpper (h : ∀ p ∈ before, p.isUpper = false) (after : Option Char) :
    startsWord before after = startsWord before none := by
  cases before with
  | none => rfl
  | some p => simp [startsWord, h p rfl]

/-- A word in function case gets its small letter back, and an underscore in front of it if it
follows on another word. -/
theorem separateWords_word (first : c.isLower = true) (small : ∀ d ∈ others, IsSmall d)
    (hbefore : ∀ p ∈ before, p.isUpper = false) (more : List Char) :
    separateWords before (c.toUpper :: others ++ more) =
      (if startsWord before none then ['_'] else []) ++
        (c :: others ++ separateWords (others.getLast?.or (some c.toUpper)) more) := by
  have notUpper : ∀ d ∈ others, d.isUpper = false := fun d hd => (small d hd).notUpper
  rw [List.cons_append, separateWords, if_pos (isUpper_toUpper first), toLower_toUpper first,
    startsWord_notUpper hbefore, separateWords_append notUpper]
  dsimp only
  split <;> rfl

theorem separateWords_capitalizeWords (h : AreWords words)
    (hbefore : ∀ p ∈ before, p.isUpper = false) :
    separateWords before (capitalizeWords true words) =
      (if startsWord before none then ['_'] else []) ++ words := by
  induction h generalizing before with
  | @last c others first small =>
    have capitals := capitalizeWords_word first small []
    rw [List.append_nil] at capitals
    rw [capitals, capitalizeWords, separateWords_word first small hbefore, separateWords,
      List.append_nil]
  | @joined c others words first small long more ih =>
    obtain ⟨p, hp⟩ := Option.ne_none_iff_exists'.1 (mt List.getLast?_eq_none_iff.1 long)
    have last : IsSmall p := small p (List.mem_of_getLast? hp)
    have between : startsWord (some p) none = true := by
      rcases last with lower | digit
      · simp [startsWord, lower]
      · simp [startsWord, digit]
    have later : separateWords (some p) (capitalizeWords true words) = '_' :: words := by
      rw [ih (by rintro _ ⟨⟩; exact last.notUpper), between]
      rfl
    rw [capitalizeWords_word first small, separateWords_word first small hbefore]
    have joint : capitalizeWords false ('_' :: words) = capitalizeWords true words := rfl
    rw [joint, hp, Option.some_or, later]

theorem snakeCase_functionCase (h : IsPlain field) : snakeCase (functionCase field) = field := by
  obtain ⟨underscores, words, hwords, rfl⟩ := h
  have front : ∀ c ∈ List.replicate underscores '_', c = '_' := fun c hc =>
    List.eq_of_mem_replicate hc
  have notUpper : ∀ c ∈ List.replicate underscores '_', c.isUpper = false := by
    intro c hc
    rw [front c hc]
    decide
  have last : ∀ p ∈ (List.replicate underscores '_').getLast?.or none, p = '_' := by
    intro p hp
    rw [Option.or_none] at hp
    exact front p (List.mem_of_getLast? hp)
  have alone : startsWord ((List.replicate underscores '_').getLast?.or none) none = false := by
    cases hp : (List.replicate underscores '_').getLast?.or none with
    | none => rfl
    | some p =>
      rw [last p hp]
      decide
  rw [functionCase_plain underscores hwords, snakeCase, String.toList_ofList,
    separateWords_append notUpper, separateWords_capitalizeWords hwords, alone]
  · rfl
  · intro p hp
    rw [last p hp]
    decide

theorem parse?_name_plain (a : Accessor) (h : IsPlain field) :
    parse? (a.name field) = some (a, functionCase field) := by
  obtain ⟨underscores, words, hwords, rfl⟩ := h
  rw [parse?_name_eq_some_iff, String.toList_ofList]
  cases underscores with
  | zero =>
    obtain ⟨c, hc, first⟩ := hwords.head
    have ascii := IsSmall.code (Or.inl first)
    exact ⟨c, hc, fun wide => by omega⟩
  | succ underscores => exact ⟨'_', rfl, by decide⟩

end LazyBinding.Accessor
