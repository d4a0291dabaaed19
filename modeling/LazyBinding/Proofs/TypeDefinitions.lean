import LazyBinding.TypeDefinition
import LazyBinding.Proofs.References

/-!
# Type definitions

The grammar of type definitions. Reading accepts exactly its texts, and the text that is written
for a type reads back as that type inside every class.
-/
namespace LazyBinding

/-- The keywords of a base; a class has none. -/
def BaseType.keywords : BaseType → List String
  | .any => ["", "any", "mixed"]
  | .primitive .bool => ["bool", "boolean"]
  | .primitive .int => ["int", "integer"]
  | .primitive .float => ["float", "double"]
  | .primitive .string => ["string"]
  | .object _ => []

/-- The word is a keyword of the base, in letters of either case. -/
def BaseType.IsCalled (base : BaseType) (word : List Char) : Prop :=
  .ofList (word.map Char.toLower) ∈ base.keywords

/-- What a word means inside the class `source`; keywords come before classes. -/
inductive Registry.Names (r : Registry) (source : ClassPath) (word : List Char) :
    BaseType → Prop where
  | keyword {base : BaseType} (h : base.IsCalled word) : Names r source word base
  | object {cls} (other : ∀ base : BaseType, ¬ base.IsCalled word)
      (h : r.Means source word cls) : Names r source word (.object cls)

namespace FieldType

variable {r : Registry} {source : ClassPath} {word : List Char}

def brackets (depth : Nat) : List Char := (List.replicate depth ['[', ']']).flatten

/-- The definition denotes the type inside the class `source`: between blanks there is a word for
the base with a pair of brackets for each array level behind it. -/
def Denotes (r : Registry) (source : ClassPath) (definition : String) (t : FieldType) : Prop :=
  ∃ word, Text.Trims definition.toList (word ++ brackets t.depth) ∧ '[' ∉ word ∧ ']' ∉ word ∧
    r.Names source word t.base

/-! ### Words -/

theorem isCalled_any_iff : BaseType.any.IsCalled word ↔
    String.ofList (word.map Char.toLower) = "" ∨ String.ofList (word.map Char.toLower) = "any" ∨
      String.ofList (word.map Char.toLower) = "mixed" := by
  simp only [BaseType.IsCalled, BaseType.keywords, List.mem_cons, List.not_mem_nil, or_false]

theorem isCalled_primitive_iff {k : Primitive} :
    (BaseType.primitive k).IsCalled word ↔ Primitive.ofWord? (.ofList word) = some k := by
  rw [BaseType.IsCalled, Primitive.ofWord?, String.toList_ofList]
  generalize String.ofList (word.map Char.toLower) = lowered
  constructor
  · intro h
    cases k <;> simp only [BaseType.keywords, List.mem_cons, List.not_mem_nil, or_false] at h
    · rcases h with rfl | rfl <;> rfl
    · rcases h with rfl | rfl <;> rfl
    · rcases h with rfl | rfl <;> rfl
    · rw [h]; rfl
  · intro h
    split at h <;> cases h <;> decide

theorem parseBase_any (h : BaseType.any.IsCalled word) :
    parseBase r source (.ofList word) = .ok .any := by
  rw [parseBase, String.toList_ofList]
  rcases isCalled_any_iff.1 h with h | h | h <;> rw [h] <;> rfl

theorem parseBase_other (h : ¬ BaseType.any.IsCalled word) :
    parseBase r source (.ofList word) =
      match Primitive.ofWord? (.ofList word) with
      | some kind => .ok (.primitive kind)
      | none =>
        if ClassPath.isWellFormedText (word.dropWhile (· == '\\')) then
          match r.resolve (.ofList word) source with
          | some cls => .ok (.object cls)
          | none => .error (.unknownClass (.ofList word))
        else .error .notAType := by
  simp only [isCalled_any_iff, not_or] at h
  rw [parseBase, String.toList_ofList]
  split
  · next empty => exact absurd empty h.1
  · next any => exact absurd any h.2.1
  · next mixed => exact absurd mixed h.2.2
  · rfl

theorem parseBase_keyword {base : BaseType} (called : base.IsCalled word) :
    parseBase r source (.ofList word) = .ok base := by
  have apart : ∀ k, ∀ w ∈ (BaseType.primitive k).keywords, w ∉ BaseType.any.keywords := by
    intro k
    cases k <;> decide
  cases base with
  | any => exact parseBase_any called
  | primitive k => rw [parseBase_other (apart k _ called), isCalled_primitive_iff.1 called]
  | object => cases called

theorem parseBase_class {base : BaseType} (other : ∀ base : BaseType, ¬ base.IsCalled word) :
    parseBase r source (.ofList word) = .ok base ↔
      ∃ cls, base = .object cls ∧ r.Means source word cls := by
  have noPrimitive : Primitive.ofWord? (.ofList word) = none :=
    Option.eq_none_iff_forall_ne_some.2 fun k hk => other _ (isCalled_primitive_iff.2 hk)
  rw [parseBase_other (other .any), noPrimitive]
  constructor
  · intro h
    simp only at h
    split at h
    · next path =>
      split at h
      · next cls found =>
        cases h
        have path := ClassPath.isWellFormedText_iff.1 path
        exact ⟨cls, rfl, (Registry.resolve_eq_some_iff path).1 found⟩
      · cases h
    · cases h
  · rintro ⟨cls, rfl, means⟩
    have path := means.isPath
    simp only [ClassPath.isWellFormedText_iff.2 path, if_true,
      (Registry.resolve_eq_some_iff path).2 means]

theorem parseBase_eq_ok_iff {base : BaseType} :
    parseBase r source (.ofList word) = .ok base ↔ r.Names source word base := by
  by_cases called : ∃ base : BaseType, base.IsCalled word
  · obtain ⟨keywordBase, called⟩ := called
    constructor
    · intro h
      cases (parseBase_keyword called).symm.trans h
      exact .keyword called
    · intro names
      cases names with
      | keyword called => exact parseBase_keyword called
      | object other => exact absurd called (other keywordBase)
  · have other : ∀ base : BaseType, ¬ base.IsCalled word := fun base h => called ⟨base, h⟩
    rw [parseBase_class other]
    constructor
    · rintro ⟨cls, rfl, means⟩
      exact .object other means
    · intro names
      cases names with
      | keyword h => exact absurd h (other base)
      | object _ means => exact ⟨_, rfl, means⟩

/-! ### Brackets -/

theorem brackets_succ (depth : Nat) : brackets (depth + 1) = brackets depth ++ ['[', ']'] := by
  rw [brackets, List.replicate_succ', List.flatten_append]
  rfl

theorem peelBrackets_brackets {reversed : List Char} (h : ']' ∉ reversed) (depth counted : Nat) :
    peelBrackets ((brackets depth).reverse ++ reversed) counted = (reversed, counted + depth) := by
  induction depth generalizing counted with
  | zero =>
    cases reversed with
    | nil => rfl
    | cons first rest =>
      have hfirst : first ≠ ']' := fun e => h (e ▸ List.mem_cons_self)
      rw [brackets, List.replicate_zero, List.flatten_nil, List.reverse_nil, List.nil_append,
        peelBrackets]
      · rfl
      · intro rest' e
        cases e
        exact hfirst rfl
  | succ depth ih =>
    rw [brackets_succ, List.reverse_append]
    show peelBrackets (']' :: '[' :: ((brackets depth).reverse ++ reversed)) counted = _
    rw [peelBrackets, ih, Nat.add_right_comm, Nat.add_assoc]

theorem exists_brackets (reversed : List Char) (counted : Nat) :
    ∃ depth, (peelBrackets reversed counted).2 = counted + depth ∧
      reversed = (brackets depth).reverse ++ (peelBrackets reversed counted).1 := by
  fun_induction peelBrackets reversed counted with
  | case1 counted rest ih =>
    obtain ⟨depth, hdepth, hrest⟩ := ih
    refine ⟨depth + 1, by rw [hdepth]; omega, ?_⟩
    rw [brackets_succ, List.reverse_append]
    exact congrArg (']' :: '[' :: ·) hrest
  | case2 reversed counted => exact ⟨0, rfl, rfl⟩

/-- A counter of 32 bits does for the brackets of a definition of less than `2^33` characters. -/
theorem peelBrackets_lt_size {definition : String} (short : definition.length < 2 * UInt32.size) :
    (peelBrackets (Text.trim definition.toList).reverse 0).2 < UInt32.size := by
  obtain ⟨⟨before, after, split, -, -⟩, -, -⟩ := Text.trim_trims definition.toList
  obtain ⟨depth, counted, pairs⟩ := exists_brackets (Text.trim definition.toList).reverse 0
  have two (depth : Nat) : (brackets depth).length = 2 * depth := by
    simp [brackets, Nat.mul_comm]
  have whole := congrArg List.length split
  have inside := congrArg List.length pairs
  simp only [List.length_append, List.length_reverse, String.length_toList, two] at whole inside
  rw [UInt32.size] at short ⊢
  rw [counted]
  omega

private theorem any_isBracket_iff {cs : List Char} :
    (cs.any fun ch => ch == '[' || ch == ']') = true ↔ '[' ∈ cs ∨ ']' ∈ cs := by
  simp only [List.any_eq_true, Bool.or_eq_true, beq_iff_eq]
  constructor
  · rintro ⟨ch, hch, rfl | rfl⟩
    · exact Or.inl hch
    · exact Or.inr hch
  · rintro (hch | hch)
    · exact ⟨_, hch, Or.inl rfl⟩
    · exact ⟨_, hch, Or.inr rfl⟩

theorem parse_word {definition : String} {depth : Nat}
    (trimmed : Text.trim definition.toList = word ++ brackets depth)
    (noOpen : '[' ∉ word) (noClose : ']' ∉ word) :
    parse r source definition =
      ((parseBase r source (.ofList word)).map fun base => ⟨base, depth⟩).mapError
        fun fault => ⟨definition, fault⟩ := by
  have peeled := peelBrackets_brackets (by simpa using noClose : ']' ∉ word.reverse) depth 0
  have clean : ¬ (word.reverse.any fun ch => ch == '[' || ch == ']') = true := by
    rw [any_isBracket_iff, List.mem_reverse, List.mem_reverse]
    exact not_or.2 ⟨noOpen, noClose⟩
  simp only [parse, trimmed, List.reverse_append, peeled, if_neg clean, List.reverse_reverse,
    Nat.zero_add]
  cases parseBase r source (.ofList word) with
  | ok base => rfl
  | error fault => rfl

/-- A definition is read as a type that it denotes, or refused with an error that quotes it. -/
theorem parse_cases (r : Registry) (source : ClassPath) (definition : String) :
    (∃ t, parse r source definition = .ok t ∧ Denotes r source definition t) ∨
      ∃ fault, parse r source definition = .error ⟨definition, fault⟩ := by
  obtain ⟨depth, -, hreversed⟩ := exists_brackets (Text.trim definition.toList).reverse 0
  have trimmed := congrArg List.reverse hreversed
  rw [List.reverse_reverse, List.reverse_append, List.reverse_reverse] at trimmed
  by_cases remains : ((peelBrackets (Text.trim definition.toList).reverse 0).1.any
      fun ch => ch == '[' || ch == ']') = true
  · right
    refine ⟨.malformedBrackets, ?_⟩
    rw [parse]
    exact if_pos remains
  · rw [any_isBracket_iff, not_or] at remains
    obtain ⟨noOpen, noClose⟩ := remains
    rw [← List.mem_reverse] at noOpen noClose
    rw [parse_word trimmed noOpen noClose]
    cases hbase : parseBase r source (.ofList _) with
    | ok base =>
      have names := parseBase_eq_ok_iff.1 hbase
      exact Or.inl ⟨⟨base, depth⟩, rfl, _, Text.trim_eq_iff.1 trimmed, noOpen, noClose, names⟩
    | error fault => exact Or.inr ⟨fault, rfl⟩

theorem parse_eq_ok_iff {definition : String} {t : FieldType} :
    parse r source definition = .ok t ↔ Denotes r source definition t := by
  constructor
  · intro h
    rcases parse_cases r source definition with ⟨t', parsed, denotes⟩ | ⟨fault, refused⟩
    · cases parsed.symm.trans h
      exact denotes
    · cases refused.symm.trans h
  · rintro ⟨word, trims, noOpen, noClose, names⟩
    rw [parse_word (Text.trim_eq_iff.2 trims) noOpen noClose, parseBase_eq_ok_iff.2 names]
    rfl

theorem class_contains {definition : String} {t : FieldType} {cls : ClassPath}
    (h : parse r source definition = .ok t) (ht : t.class? = some cls) : r.contains cls = true := by
  obtain ⟨word, -, -, -, names⟩ := parse_eq_ok_iff.1 h
  obtain ⟨base, depth⟩ := t
  cases names with
  | keyword called =>
    cases base with
    | any => cases ht
    | primitive => cases ht
    | object => cases called
  | object _ means =>
    cases ht
    exact means.contains

/-- A definition is read as exactly the type that it denotes. One that denotes none is refused with
an error that quotes it. -/
theorem parse_accepts_grammar (r : Registry) (source : ClassPath) (definition : String) :
    (∀ t, parse r source definition = .ok t ↔ Denotes r source definition t) ∧
      ((∀ t, ¬ Denotes r source definition t) ↔
        ∃ fault, parse r source definition = .error ⟨definition, fault⟩) := by
  refine ⟨fun t => parse_eq_ok_iff, ?_⟩
  constructor
  · intro meaningless
    rcases parse_cases r source definition with ⟨t, -, denotes⟩ | refused
    · exact absurd denotes (meaningless t)
    · exact refused
  · rintro ⟨fault, refused⟩ t denotes
    rw [parse_eq_ok_iff.2 denotes] at refused
    cases refused

example : parse .empty .root " Float[] " = .ok ⟨.primitive .float, 1⟩ := by rfl

example : parse .empty .root "LazyObject []" = .error ⟨"LazyObject []", .notAType⟩ := by rfl

/-! ### Texts of types -/

/-- A word whose characters are neither blanks nor brackets. -/
def IsPlainWord (word : List Char) : Prop :=
  ∀ ch ∈ word, Text.isBlank ch = false ∧ ch ≠ '[' ∧ ch ≠ ']'

instance : DecidablePred IsPlainWord := fun word => List.decidableBAll _ word

theorem noBlank_brackets (depth : Nat) : ∀ ch ∈ brackets depth, Text.isBlank ch = false := by
  intro ch hch
  obtain ⟨pair, hpair, hch⟩ := List.mem_flatten.1 hch
  rw [List.eq_of_mem_replicate hpair] at hch
  simp only [List.mem_cons, List.not_mem_nil, or_false] at hch
  rcases hch with rfl | rfl <;> decide

theorem isPlainWord_absolute {path : List Char} (h : ClassPath.IsPath path) :
    IsPlainWord ('\\' :: path) := by
  refine List.forall_mem_cons.2 ⟨by decide, fun ch hch => ⟨h.noBlank ch hch, ?_, ?_⟩⟩
  · rintro rfl
    exact h.notMem '[' (by decide) (by decide) hch
  · rintro rfl
    exact h.notMem ']' (by decide) (by decide) hch

theorem not_isCalled_absolute (base : BaseType) (path : List Char) :
    ¬ base.IsCalled ('\\' :: path) := by
  have letters : ∀ keyword ∈ base.keywords, '\\' ∉ keyword.toList := by
    cases base with
    | primitive k => cases k <;> decide
    | any => decide
    | object => intro _ none; cases none
  intro called
  refine letters _ called ?_
  rw [String.toList_ofList]
  exact List.mem_cons_self

theorem exists_word {t : FieldType} (known : ∀ cls, t.class? = some cls → r.contains cls = true)
    (reader : ClassPath) :
    ∃ word, t.text.toList = word ++ brackets t.depth ∧ IsPlainWord word ∧
      r.Names reader word t.base := by
  obtain ⟨base, depth⟩ := t
  have written : ∀ word : String,
      (word ++ String.ofList (List.replicate depth ['[', ']']).flatten).toList =
        word.toList ++ brackets depth := by
    intro word
    rw [String.toList_append, String.toList_ofList]
    rfl
  cases base with
  | any =>
    refine ⟨_, written "any", by decide, .keyword ?_⟩
    exact isCalled_any_iff.2 (Or.inr (Or.inl rfl))
  | primitive k =>
    refine ⟨_, written k.keyword, ?_, .keyword (isCalled_primitive_iff.2 ?_)⟩
    · cases k <;> decide
    · rw [String.ofList_toList]
      exact Primitive.ofWord?_keyword k
  | object cls =>
    have registered := known cls rfl
    have path := Registry.isPath_of_contains registered
    refine ⟨'\\' :: cls.text.toList, ?_, isPlainWord_absolute path, ?_⟩
    · have hword : ("\\" ++ cls.text).toList = '\\' :: cls.text.toList := by
        rw [String.toList_append]
        rfl
      exact hword ▸ written ("\\" ++ cls.text)
    · have absolute : r.Means reader ('\\' :: cls.text.toList) ⟨.ofList cls.text.toList⟩ :=
        .absolute path (by simpa using registered)
      rw [String.ofList_toList] at absolute
      exact .object (fun base => not_isCalled_absolute base _) absolute

/-- The text of a type reads back as the type inside every class, whatever its class is called. -/
theorem text_reads_back {t : FieldType}
    (parsed : ∃ source definition, parse r source definition = .ok t) (reader : ClassPath) :
    parse r reader t.text = .ok t := by
  obtain ⟨source, definition, parsed⟩ := parsed
  have known : ∀ cls, t.class? = some cls → r.contains cls = true := fun _ => class_contains parsed
  obtain ⟨word, written, plain, names⟩ := exists_word known reader
  refine parse_eq_ok_iff.2 ⟨word, ?_, ?_, ?_, names⟩
  · rw [written]
    refine .self fun ch hch => ?_
    rcases List.mem_append.1 hch with hch | hch
    · exact (plain ch hch).1
    · exact noBlank_brackets t.depth ch hch
  · exact fun hch => (plain _ hch).2.1 rfl
  · exact fun hch => (plain _ hch).2.2 rfl

end FieldType

namespace KeywordExample

/-- Two classes whose names are made of keywords; inside `Shop` the second one shadows the first. -/
def registry : Registry where
  declared := [⟨⟨"int.any"⟩, none, [], none⟩, ⟨⟨"Shop.int.any"⟩, none, [], none⟩]
  wellFormed := by decide
  distinct := by decide

def shadowed : FieldType := ⟨.object ⟨"int.any"⟩, 1⟩

end KeywordExample

open KeywordExample in
theorem FieldType.text_reads_back_shadowed :
    parse registry ⟨"Item"⟩ "int.any[]" = .ok shadowed ∧
      parse registry ⟨"Shop.Order"⟩ "int.any[]" ≠ .ok shadowed ∧
      ∀ reader, parse registry reader "\\int.any[]" = .ok shadowed := by
  have parsed : parse registry ⟨"Item"⟩ "int.any[]" = .ok shadowed := by rfl
  have text : shadowed.text = "\\int.any[]" := by rfl
  refine ⟨parsed, ?_, ?_⟩
  · have other : parse registry ⟨"Shop.Order"⟩ "int.any[]" = .ok ⟨.object ⟨"Shop.int.any"⟩, 1⟩ := by
      rfl
    rw [other]
    simp [shadowed]
  · rw [← text]
    exact text_reads_back ⟨_, _, parsed⟩

end LazyBinding
