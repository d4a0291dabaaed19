import LazyBinding.Proofs.AtRest
import LazyBinding.Proofs.Rendering

/-!
# Exports are complete

An export has the keys of the object in their order and shows what each field stores. No object and
no handle is left in it at any depth, so it has a document, and the object has a text.
-/
namespace LazyBinding

variable {start s t : Session} {p : Passage} {n : Nat} {v w : Value} {o x : BoundObject}
variable {E E' : BoundObject → Value → Prop}

theorem Value.wellKeyed_items {items : List Value} (keyed : v.isWellKeyed = true)
    (source : v.items? = some items) : ∀ v ∈ items, v.isWellKeyed = true := by
  obtain rfl | ⟨entries, rfl, -, rfl⟩ := Value.items?_cases source
  · exact Value.areWellKeyed_iff.1 keyed
  · intro v hv
    obtain ⟨entry, hentry, rfl⟩ := List.mem_map.1 hv
    exact (Dict.isWellKeyed_iff.1 keyed).2 entry hentry

namespace Passage

theorem Holds.wellKeyed (h : p.Holds start v x) (keyed : v.isWellKeyed = true) :
    x.IsWellKeyed := by
  have converted := p.convertBase_wellKeyed BoundObject.builder_wellKeyed keyed start
  rwa [h.2] at converted

/-- Whatever holds of what an export shows under all array levels, of null and of arrays of such
values holds of all that it shows. -/
theorem Renders.shown_induction {P : Value → Prop} (h : p.Renders start E n v w)
    (keyed : v.isWellKeyed = true) (null : P .null) (array : ∀ ws, (∀ w ∈ ws, P w) → P (.array ws))
    (base : ∀ v w, v.isWellKeyed = true → p.RendersBase start E v w → P w) : P w := by
  induction n generalizing v w with
  | zero =>
    by_cases hv : v = .null
    · subst hv
      rw [renders_null.1 h]
      exact null
    · exact base v w keyed ((renders_zero hv).1 h)
  | succ n ih =>
    by_cases hv : v = .null
    · subst hv
      rw [renders_null.1 h]
      exact null
    · obtain ⟨items, ws, source, rfl, all⟩ := (renders_succ hv).1 h
      have keyed := Value.wellKeyed_items keyed source
      exact array ws (forall_of_forall₂ all fun v hv w hw => ih hw (keyed v hv))

theorem Renders.fit (h : p.Renders start E n v w) (keyed : v.isWellKeyed = true)
    (he : ∀ x u, x.IsWellKeyed → E x u → u.unfit? = none) : w.unfit? = none := by
  refine h.shown_induction (P := fun w => w.unfit? = none) keyed rfl
    (fun _ => Value.unfitInItems?_eq_none.2) ?_
  intro v w keyed h
  rw [RendersBase] at h
  split at h
  · obtain ⟨untyped, rfl⟩ := h
    exact (checkUntyped_eq_none.1 untyped).1
  · exact Value.fit_of_kind (toPrimitive_kind h)
  · obtain ⟨x, holds, hx⟩ := h
    exact he x w (holds.wellKeyed keyed) hx

theorem Renders.wellKeyed (h : p.Renders start E n v w) (keyed : v.isWellKeyed = true)
    (he : ∀ x u, x.IsWellKeyed → E x u → u.isWellKeyed = true) : w.isWellKeyed = true := by
  refine h.shown_induction (P := fun w => w.isWellKeyed = true) keyed rfl
    (fun _ => Value.areWellKeyed_iff.2) ?_
  intro v w keyed h
  rw [RendersBase] at h
  split at h
  · rw [h.2]
    exact keyed
  · next kind _ =>
    have primitive := p.toPrimitive_wellKeyed kind keyed
    rwa [h] at primitive
  · obtain ⟨x, holds, hx⟩ := h
    exact he x w (holds.wellKeyed keyed) hx

end Passage

namespace BoundObject

variable {depth : Nat}

theorem ShowsField.of_untyped {field : String} (untyped : (o.outlet field).type = .untyped)
    (h : o.ShowsField start E field v w) : w = v := by
  have depth : (o.outlet field).type.depth = 0 := congrArg FieldType.depth untyped
  have base : (o.outlet field).type.base = .any := congrArg FieldType.base untyped
  rw [ShowsField, depth] at h
  by_cases hv : v = .null
  · subst hv
    exact Passage.renders_null.1 h
  · rw [Passage.renders_zero hv, Passage.RendersBase, base] at h
    exact h.2

theorem ExportsTo.isMap (hstart : start.Keeps start) (h : o.ExportsTo start depth v) :
    ∃ entries, v = .map entries := by
  cases depth with
  | zero => cases h
  | succ depth =>
    obtain ⟨-, entries, rfl, -⟩ := (exportsTo_succ_iff hstart).1 h
    exact ⟨entries, rfl⟩

theorem ExportsTo.fit (hstart : start.Keeps start) (keyed : o.IsWellKeyed)
    (h : o.ExportsTo start depth v) : v.unfit? = none := by
  induction depth generalizing o v with
  | zero => cases h
  | succ depth ih =>
    obtain ⟨distinct, inner⟩ := Dict.isWellKeyed_iff.1 keyed
    obtain ⟨entries, rfl, related⟩ := (exportsTo_iff hstart distinct).1 h
    refine Value.unfitInEntries?_eq_none.2 (forall_of_forall₂ related ?_)
    rintro stored hstored exported ⟨-, shows⟩
    exact shows.fit (inner stored hstored) fun x u keyed hx => ih keyed hx

theorem ExportsTo.wellKeyed (hstart : start.Keeps start) (keyed : o.IsWellKeyed)
    (h : o.ExportsTo start depth v) : v.isWellKeyed = true := by
  induction depth generalizing o v with
  | zero => cases h
  | succ depth ih =>
    obtain ⟨distinct, inner⟩ := Dict.isWellKeyed_iff.1 keyed
    obtain ⟨entries, rfl, related⟩ := (exportsTo_iff hstart distinct).1 h
    refine Dict.isWellKeyed_iff.2 ⟨?_, forall_of_forall₂ related ?_⟩
    · rw [Dict.Distinct, related.keys]
      exact distinct
    · rintro stored hstored exported ⟨-, shows⟩
      exact shows.wellKeyed (inner stored hstored) fun x u keyed hx => ih keyed hx

theorem ExportsTo.cases (hstart : start.Keeps start) (distinct : Dict.Distinct o.data)
    (h : o.ExportsTo start levelLimit v) :
    ∃ entries, v = .map entries ∧
      Dict.Related (o.ShowsField start (ExportsTo start levelLimit)) o.data entries := by
  obtain ⟨limit, hlimit⟩ := Nat.exists_eq_add_of_le' (show 1 ≤ levelLimit by decide)
  rw [hlimit] at h ⊢
  obtain ⟨entries, rfl, related⟩ := (exportsTo_iff hstart distinct).1 h
  refine ⟨entries, rfl, related.imp fun field u w shows => shows.mono ?_⟩
  intro x u hx
  exact hx.mono hstart (Nat.le_succ limit)

/-- An export is a map with the keys of the object. It shows each field, with the map of its own
export for each object and untyped trees as they are, and no object or handle is left in it. So it
has a document, and the object has a text. -/
theorem export_complete (registries : List (Registry × Bool)) (operations : List Session.Operation)
    (o : BoundObject) (keyed : o.IsWellKeyed) :
    let s := (Session.fresh registries).run operations
    ∀ v, (o.exported s).2 = .ok v →
      (∃ entries, v = .map entries ∧ Dict.keys entries = Dict.keys o.data ∧
        Dict.Related (o.ShowsField s fun x w => (x.exported s).2 = .ok w ∧ ∃ ws, w = .map ws)
          o.data entries ∧
        ∀ field u, o.slot? field = some u → (o.outlet field).type = .untyped →
          Dict.get? entries field = some u) ∧
      v.unfit? = none ∧
      (∀ t, ∃ document, v.toJson t = (t, .ok document)) ∧
      ∀ indented, ∃ text, (o.toJsonText indented s).2 = .ok text := by
  intro s v exported
  have hs : s.Keeps s := ((Session.keeps_fresh registries).run operations).self
  have h : o.ExportsTo s levelLimit v := exported
  have distinct := (Dict.isWellKeyed_iff.1 keyed).1
  have fit := h.fit hs keyed
  refine ⟨?_, fit, Value.toJsonWith_fit fit, ?_⟩
  · obtain ⟨entries, rfl, related⟩ := h.cases hs distinct
    refine ⟨entries, rfl, related.keys, related.imp ?_, ?_⟩
    · intro field u w shows
      exact shows.mono fun x w hx => ⟨hx, hx.isMap hs⟩
    · intro field u stored untyped
      obtain ⟨w, hw, shows⟩ := related.get? stored
      rwa [shows.of_untyped untyped] at hw
  · intro indented
    have hexport : o.exported s = ((o.exported s).1, .ok v) := Prod.ext rfl exported
    have plain : ∃ document, v.plainToJson (o.exported s).1 = ((o.exported s).1, .ok document) :=
      Value.toJsonWith_fit fit (o.exported s).1
    obtain ⟨document, hdocument⟩ := plain
    refine ⟨document.encode indented, ?_⟩
    rw [toJsonText, toJson, hexport]
    simp only [hdocument]

end BoundObject

open LinkExample in
theorem link_export_complete :
    let v := Value.map [("size", .int 3), ("next", .map [("size", .int 1)])]
    link.IsWellKeyed ∧ (link.exported session).2 = .ok v ∧ v.unfit? = none ∧
      ∀ indented, ∃ text, (link.toJsonText indented session).2 = .ok text := by
  intro v
  have keyed : link.IsWellKeyed := by rfl
  have exported : (link.exported session).2 = .ok v := by rfl
  obtain ⟨-, fit, -, text⟩ :=
    BoundObject.export_complete [(registry, false)] [] link keyed v exported
  exact ⟨keyed, exported, fit, text⟩

end LazyBinding
