import LazyBinding.Object.Encoding
import LazyBinding.Object.Serialization
import LazyBinding.Proofs.DoubleBits

/-!
# The two writers of values agree

A value has a document, which can be written, and a text that is written in one pass. Both fail at
the same place and for the same reason, or the one is the text of the other, whatever arrays, maps
and objects are inside each other.
-/
namespace LazyBinding

/-! ### Doubles that are not finite -/

theorem Decimal.Layout.write_of_not_isFinite (layout : Layout) {x : Float}
    (h : x.isFinite = false) :
    layout.write x ∈ [layout.nan, layout.infinity, layout.negativeInfinity] := by
  have special : x.toBits.toNat / hiddenBit % 2048 = 2047 := by
    by_contra finite
    simp [isFinite_of_exponent_ne finite] at h
  have parts : Parts.ofFloat x = .nan ∨ ∃ negative, Parts.ofFloat x = .infinite negative := by
    unfold Parts.ofFloat Parts.ofBits
    dsimp only
    rw [if_pos special]
    split
    · exact Or.inr ⟨_, rfl⟩
    · exact Or.inl rfl
  rcases parts with parts | ⟨negative, parts⟩
  · simp [write, parts]
  · cases negative <;> simp [write, parts]

theorem Json.numberLayout_of_not_isFinite {x : Float} (h : x.isFinite = false) :
    numberLayout.write x = "null" := by
  simpa [numberLayout] using numberLayout.write_of_not_isFinite h

/-! ### Values -/

/-- What makes serialization fail, as the error of encoding. -/
def SerializationFault.cause : SerializationFault → ObjectError
  | handle => .decode .handle
  | object e => e

/-- A text is written of what has been made, or neither is there, for the same reason; the session
is the same either way. -/
inductive WrittenAlike {α β : Type} (write : β → α) :
    Session × Except SerializationFault α → Session × Except ObjectError β → Prop where
  | written (s : Session) (b : β) : WrittenAlike write (s, .ok (write b)) (s, .ok b)
  | failed (s : Session) (fault : SerializationFault) :
      WrittenAlike write (s, .error fault) (s, .error fault.cause)

section

variable {f : BoundObject → Session → Session × Except SerializationFault (List Char)}
variable {g : BoundObject → Session → Session × Except ObjectError Json}

mutual

theorem Value.serializeWith_alike
    (objects : ∀ o s, WrittenAlike Json.writeCompact (f o s) (g o s)) :
    ∀ v s, WrittenAlike Json.writeCompact (Value.serializeWith f v s) (Value.toJsonWith g v s)
  | .null, s => by
    rw [Value.serializeWith, Value.toJsonWith]
    exact .written s Json.null
  | .bool b, s => by
    rw [Value.serializeWith, Value.toJsonWith]
    cases b with
    | true => exact .written s (Json.bool true)
    | false => exact .written s (Json.bool false)
  | .int n, s => by
    rw [Value.serializeWith, Value.toJsonWith]
    exact .written s (Json.int n.toInt)
  | .float x, s => by
    rw [Value.serializeWith, Value.toJsonWith]
    cases finite : x.isFinite with
    | true => exact .written s (Json.float x)
    | false =>
      rw [Json.numberLayout_of_not_isFinite finite]
      exact .written s Json.null
  | .str text, s => by
    rw [Value.serializeWith, Value.toJsonWith]
    exact .written s (Json.str text)
  | .array items, s => by
    have inside := Value.serializeItems_alike objects items s
    rw [Value.serializeWith, Value.toJsonWith]
    generalize Value.serializeItems f items s = x at inside ⊢
    generalize Value.itemsToJson g items s = y at inside ⊢
    cases inside with
    | written t documents => exact .written t (Json.arr documents)
    | failed t fault => exact .failed t fault
  | .map entries, s => by
    have inside := Value.serializeEntries_alike objects entries s
    rw [Value.serializeWith, Value.toJsonWith]
    generalize Value.serializeEntries f entries s = x at inside ⊢
    generalize Value.entriesToJson g entries s = y at inside ⊢
    cases inside with
    | written t members => exact .written t (Json.obj members)
    | failed t fault => exact .failed t fault
  | .object schema cls table data, s => by
    rw [Value.serializeWith, Value.toJsonWith]
    exact objects ⟨schema, cls, table, data⟩ s
  | .handle _, s => by
    rw [Value.serializeWith, Value.toJsonWith]
    exact .failed s .handle

theorem Value.serializeItems_alike
    (objects : ∀ o s, WrittenAlike Json.writeCompact (f o s) (g o s)) :
    ∀ items s, WrittenAlike Json.compactItems (Value.serializeItems f items s)
      (Value.itemsToJson g items s)
  | [], s => by
    rw [Value.serializeItems, Value.itemsToJson]
    exact .written s []
  | v :: rest, s => by
    have first := Value.serializeWith_alike objects v s
    rw [Value.serializeItems, Value.itemsToJson]
    generalize Value.serializeWith f v s = x at first ⊢
    generalize Value.toJsonWith g v s = y at first ⊢
    cases first with
    | failed t fault => exact .failed t fault
    | written t document =>
      have others := Value.serializeItems_alike objects rest t
      dsimp only
      generalize Value.serializeItems f rest t = x at others ⊢
      generalize Value.itemsToJson g rest t = y at others ⊢
      cases others with
      | failed t fault => exact .failed t fault
      | written t documents => exact .written t (document :: documents)

theorem Value.serializeEntries_alike
    (objects : ∀ o s, WrittenAlike Json.writeCompact (f o s) (g o s)) :
    ∀ entries s, WrittenAlike Json.compactMembers (Value.serializeEntries f entries s)
      (Value.entriesToJson g entries s)
  | [], s => by
    rw [Value.serializeEntries, Value.entriesToJson]
    exact .written s []
  | (key, v) :: rest, s => by
    have first := Value.serializeWith_alike objects v s
    rw [Value.serializeEntries, Value.entriesToJson]
    generalize Value.serializeWith f v s = x at first ⊢
    generalize Value.toJsonWith g v s = y at first ⊢
    cases first with
    | failed t fault => exact .failed t fault
    | written t document =>
      have others := Value.serializeEntries_alike objects rest t
      dsimp only
      generalize Value.serializeEntries f rest t = x at others ⊢
      generalize Value.entriesToJson g rest t = y at others ⊢
      cases others with
      | failed t fault => exact .failed t fault
      | written t members => exact .written t ((key, document) :: members)

end

end

theorem BoundObject.serializedExport_alike (o : BoundObject) (s : Session) :
    WrittenAlike Json.writeCompact (o.serializedExport s) (o.toJson s) := by
  unfold serializedExport toJson
  rcases o.exported s with ⟨t, e | v⟩
  · exact .failed t (.object e)
  · exact Value.serializeWith_alike (fun o s => .failed s (.object (.endless o.cls))) v t

theorem Value.serialize_alike (v : Value) (s : Session) :
    WrittenAlike (Json.encode false) (v.serialize s) (v.toJson s) := by
  have inside := Value.serializeWith_alike BoundObject.serializedExport_alike v s
  unfold Value.serialize Value.toJson
  generalize v.serializeWith BoundObject.serializedExport s = x at inside ⊢
  generalize v.toJsonWith BoundObject.toJson s = y at inside ⊢
  cases inside with
  | failed t fault => exact .failed t fault
  | written t document => exact .written t document

theorem Value.toJson_ofObject (o : BoundObject) (s : Session) :
    (Value.ofObject o).toJson s = o.toJson s := by
  rw [Value.toJson, Value.ofObject, Value.toJsonWith]

theorem BoundObject.serialize_alike (o : BoundObject) (s : Session) :
    WrittenAlike id ((Value.ofObject o).serialize s) (o.toJsonText false s) := by
  have inside := (Value.ofObject o).serialize_alike s
  rw [Value.toJson_ofObject] at inside
  unfold toJsonText
  generalize (Value.ofObject o).serialize s = x at inside ⊢
  generalize o.toJson s = y at inside ⊢
  cases inside with
  | failed t fault => exact .failed t fault
  | written t document => exact .written t (document.encode false)

namespace WrittenAlike

variable {α β : Type} {write : β → α} {x : Session × Except SerializationFault α}
variable {y : Session × Except ObjectError β}

theorem session (h : WrittenAlike write x y) : x.1 = y.1 := by
  cases h <;> rfl

theorem ok_iff (h : WrittenAlike write x y) {a : α} :
    x.2 = .ok a ↔ ∃ b, y.2 = .ok b ∧ a = write b := by
  cases h with
  | written s b => simp [eq_comm]
  | failed => simp

theorem cause (h : WrittenAlike write x y) {fault : SerializationFault}
    (failed : x.2 = .error fault) : y.2 = .error fault.cause := by
  cases h with
  | written => cases failed
  | failed => cases failed; rfl

end WrittenAlike

/-- The text of a value that is written in one pass is that of its document: the one is there if the
other is. The text of an object in one pass is that of its document too. What has been compiled on
the way is the same, and so is the reason for a failure. -/
theorem encoders_agree (s : Session) :
    (∀ v : Value, (v.serialize s).1 = (v.toJson s).1 ∧
      (∀ text, (v.serialize s).2 = .ok text ↔
        ∃ document, (v.toJson s).2 = .ok document ∧ text = document.encode false) ∧
      ∀ fault, (v.serialize s).2 = .error fault → (v.toJson s).2 = .error fault.cause) ∧
    ∀ o : BoundObject, ((Value.ofObject o).serialize s).1 = (o.toJsonText false s).1 ∧
      (∀ text, ((Value.ofObject o).serialize s).2 = .ok text ↔
        (o.toJsonText false s).2 = .ok text) ∧
      ∀ fault, ((Value.ofObject o).serialize s).2 = .error fault →
        (o.toJsonText false s).2 = .error fault.cause := by
  constructor
  · intro v
    have alike := v.serialize_alike s
    exact ⟨alike.session, fun text => alike.ok_iff, fun fault => alike.cause⟩
  · intro o
    have alike := o.serialize_alike s
    refine ⟨alike.session, fun text => ?_, fun fault => alike.cause⟩
    rw [alike.ok_iff]
    simp

end LazyBinding
