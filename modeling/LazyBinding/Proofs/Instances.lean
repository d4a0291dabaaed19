import LazyBinding.Proofs.Binding

/-!
# What hooks leave

Without a hook an object is of the class that it was made for. A hook may put another object in its
place, and nothing checks what that is of. Some laws of conversions and reads only hold where every
hook leaves an instance of the class that it runs for.
-/
namespace LazyBinding

open BoundObject

variable {start s : Session} {schema : SchemaId} {cls : ClassPath} {data : Dict String Value}
variable {o : BoundObject}

theorem Registry.hook?_eq_none {r : Registry} (h : ∀ d ∈ r.declared, d.hook = none)
    (cls : ClassPath) : r.hook? cls = none := by
  unfold hook?
  split
  · rfl
  · rw [List.findSome?_eq_none_iff]
    intro c _
    cases hd : r.get? c with
    | none => rfl
    | some d =>
      rcases List.mem_cons.1 (List.mem_of_find?_eq_some hd) with rfl | hmem
      · rfl
      · exact h d hmem

theorem Registry.isA_self {r : Registry} (registered : r.contains cls = true) :
    r.isA cls cls = true := by
  simp [isA, registered]

namespace Session

/-- No class of the session has a hook. -/
def Hookless (start : Session) : Prop := ∀ id cls, (start.registry id).hook? cls = none

/-- What is made of a class, hooks included, is an instance of the class. -/
def LeavesInstances (start : Session) : Prop :=
  ∀ schema cls data o, (make schema cls data start).2 = .ok o →
    (start.registry schema).isA o.cls cls = true

end Session

theorem registered_of_made (hs : start.Keeps s) (made : (make schema cls data s).2 = .ok o) :
    (start.registry schema).contains cls = true := by
  obtain ⟨table, compiled, -⟩ := construct_eq_ok made
  have bound : IsBound start ⟨schema, cls, table, data⟩ := isBound_of_table hs compiled
  exact bound.registered

theorem isA_of_hookless (hstart : start.Keeps start)
    (hookless : (start.registry schema).hook? cls = none)
    (made : (make schema cls data start).2 = .ok o) :
    (start.registry schema).isA o.cls cls = true := by
  have registered := registered_of_made hstart made
  obtain ⟨table, -, rfl⟩ := (builder_hookless hstart hstart hookless).1 made
  exact Registry.isA_self registered

theorem Session.Hookless.leavesInstances (hookless : start.Hookless) (hstart : start.Keeps start) :
    start.LeavesInstances := fun schema cls _ _ made =>
  isA_of_hookless hstart (hookless schema cls) made

theorem Procedure.run_finish {hooks : HookRunner} {depth : Nat} {left : BoundObject}
    {stop : Option HookStop}
    (ended : ((Procedure.finish left stop).run hooks depth o s).result = .ok ()) :
    stop = none ∧ ((Procedure.finish left stop).run hooks depth o s).object.cls = left.cls := by
  obtain ⟨left, rebound, taken⟩ := taking_eq_ok ended
  obtain ⟨_, _, _, _, rfl⟩ := rebind_eq_ok rebound
  rw [Procedure.run, taken] at ended ⊢
  refine ⟨?_, rfl⟩
  cases stop with
  | none => rfl
  | some stop => cases stop <;> cases ended

namespace SquareExample

/-- A hook that puts a square with the same data in the place of its object. -/
def square : Hook := fun o => .make 0 ⟨"Square"⟩ o.data fun
  | .ok made => .finish made none
  | .error e => .finish o (some (.object e))

/-- Shapes, which turn into squares when they are made, and a class with a field for a shape. What
squares descend from is left open. -/
def registry (parent : Option String) : Registry where
  declared := [⟨⟨"Shape"⟩, none, [.field "size" "int"], some square⟩,
    ⟨⟨"Square"⟩, parent, [], some fun o => .finish o none⟩,
    ⟨⟨"Sheet"⟩, none, [.field "shape" "Shape"], none⟩]
  wellFormed := by
    simp only [List.forall_mem_cons]
    decide
  distinct := by
    simp only [List.map_cons, List.map_nil]
    decide

/-- Squares are shapes. -/
def refined : Session := Session.fresh [(registry (some "Shape"), false)]

/-- Squares have nothing to do with shapes. -/
def replaced : Session := Session.fresh [(registry none, false)]

theorem refined_keeps : refined.Keeps refined :=
  Session.keeps_fresh [(registry (some "Shape"), false)]

theorem replaced_keeps : replaced.Keeps replaced := Session.keeps_fresh [(registry none, false)]

theorem shape_table (parent : Option String) :
    (Session.fresh [(registry parent, false)]).coldTable 0 ⟨"Shape"⟩ =
      .ok [("size", ⟨.primitive .int, 0⟩)] := by
  have made : (Attempt.first (registry parent) .empty ⟨"Shape"⟩).result = .ok [] := by rfl
  exact SchemaCache.compile_alone (by rfl) made (List.forall_mem_nil _) (by rfl)

theorem refined_square_table :
    refined.coldTable 0 ⟨"Square"⟩ = .ok [("size", ⟨.primitive .int, 0⟩)] := by
  have made : (Attempt.first (registry (some "Shape")) .empty ⟨"Square"⟩).result = .ok [] := by rfl
  exact SchemaCache.compile_alone (by rfl) made (List.forall_mem_nil _) (by rfl)

theorem replaced_square_table : replaced.coldTable 0 ⟨"Square"⟩ = .ok [] := by
  have made : (Attempt.first (registry none) .empty ⟨"Square"⟩).result = .ok [] := by rfl
  exact SchemaCache.compile_alone (by rfl) made (List.forall_mem_nil _) (by rfl)

theorem construct_of_table {depth : Nat} {table : FieldTable} (hs : start.Keeps s)
    (compiled : start.coldTable schema cls = .ok table) :
    let effect := runHook depth ⟨schema, cls, table, data⟩ (s.table schema cls).1
    (construct depth schema cls data s).2 = effect.result.map fun _ => effect.object := by
  have found := (hs.table_eq schema cls).trans compiled
  rw [construct, HookRunner.builder]
  rcases htable : s.table schema cls with ⟨s', result⟩
  rw [htable] at found
  cases found
  rfl

theorem rebind_square {table : FieldTable} (hs : start.Keeps s)
    (compiled : start.coldTable 0 ⟨"Square"⟩ = .ok table) :
    (⟨0, ⟨"Square"⟩, table, []⟩ : BoundObject).rebind s = .ok ⟨0, ⟨"Square"⟩, table, []⟩ := by
  rw [rebind, hs.coldTable_eq, compiled]
  rfl

theorem square_made {depth : Nat} {table : FieldTable} (hs : start.Keeps s)
    (hook : (start.registry 0).hook? ⟨"Square"⟩ = some fun o => .finish o none)
    (compiled : start.coldTable 0 ⟨"Square"⟩ = .ok table) :
    (construct (depth + 1) 0 ⟨"Square"⟩ [] s).2 = .ok ⟨0, ⟨"Square"⟩, table, []⟩ := by
  have hs' := hs.table 0 ⟨"Square"⟩
  rw [← hs'.registry] at hook
  rw [construct_of_table hs compiled, runHook_succ hook, Procedure.run, rebind_square hs' compiled]
  rfl

theorem shape_made {depth : Nat} {table fields : FieldTable} (hs : start.Keeps s)
    (hook : (start.registry 0).hook? ⟨"Shape"⟩ = some square)
    (inner : (start.registry 0).hook? ⟨"Square"⟩ = some fun o => .finish o none)
    (shape : start.coldTable 0 ⟨"Shape"⟩ = .ok fields)
    (compiled : start.coldTable 0 ⟨"Square"⟩ = .ok table) :
    (construct (depth + 2) 0 ⟨"Shape"⟩ [] s).2 = .ok ⟨0, ⟨"Square"⟩, table, []⟩ := by
  have hs' := hs.table 0 ⟨"Shape"⟩
  have made : (construct (depth + 1) 0 ⟨"Square"⟩ [] (s.table 0 ⟨"Shape"⟩).1).2 =
      .ok ⟨0, ⟨"Square"⟩, table, []⟩ := square_made hs' inner compiled
  have ht := hs'.evolves (construct_evolves (depth + 1) 0 ⟨"Square"⟩ [] (s.table 0 ⟨"Shape"⟩).1)
  rw [← hs'.registry] at hook
  rw [construct_of_table hs shape, runHook_succ hook]
  change (let made := construct (depth + 1) 0 ⟨"Square"⟩ [] (s.table 0 ⟨"Shape"⟩).1
    let effect := Procedure.run (runHook (depth + 1)) (depth + 1) ⟨0, ⟨"Shape"⟩, fields, []⟩
      (match made.2 with
        | .ok left => .finish left none
        | .error e => .finish ⟨0, ⟨"Shape"⟩, fields, []⟩ (some (.object e))) made.1
    effect.result.map fun _ => effect.object) = _
  dsimp only
  rw [made]
  dsimp only
  rw [Procedure.run, rebind_square ht compiled]
  rfl

theorem refined_made : (make 0 ⟨"Shape"⟩ [] refined).2 =
    .ok ⟨0, ⟨"Square"⟩, [("size", ⟨.primitive .int, 0⟩)], []⟩ := by
  obtain ⟨depth, hdepth⟩ := Nat.exists_eq_add_of_le' (show 2 ≤ levelLimit by decide)
  rw [make, builder, hdepth]
  exact shape_made refined_keeps (by rfl) (by rfl) (shape_table _) refined_square_table

theorem replaced_made : (make 0 ⟨"Shape"⟩ [] replaced).2 = .ok ⟨0, ⟨"Square"⟩, [], []⟩ := by
  obtain ⟨depth, hdepth⟩ := Nat.exists_eq_add_of_le' (show 2 ≤ levelLimit by decide)
  rw [make, builder, hdepth]
  exact shape_made replaced_keeps (by rfl) (by rfl) (shape_table _) replaced_square_table

theorem square_left {depth : Nat} (hs : refined.Keeps s)
    (made : (construct depth 0 ⟨"Square"⟩ data s).2 = .ok o) : o.cls = ⟨"Square"⟩ := by
  obtain ⟨table, -, rfl, ended⟩ := construct_eq_ok made
  have hook : ((s.table 0 ⟨"Square"⟩).1.registry 0).hook? ⟨"Square"⟩ =
      some fun o => .finish o none := by
    rw [(hs.table 0 ⟨"Square"⟩).registry]
    rfl
  cases depth with
  | zero =>
    rw [runHook_zero hook] at ended
    cases ended
  | succ depth =>
    rw [runHook_succ hook] at ended ⊢
    exact (Procedure.run_finish ended).2

theorem shape_left {depth : Nat} (hs : refined.Keeps s)
    (made : (construct depth 0 ⟨"Shape"⟩ data s).2 = .ok o) : o.cls = ⟨"Square"⟩ := by
  obtain ⟨table, -, rfl, ended⟩ := construct_eq_ok made
  have hs' := hs.table 0 ⟨"Shape"⟩
  have hook : ((s.table 0 ⟨"Shape"⟩).1.registry 0).hook? ⟨"Shape"⟩ = some square := by
    rw [hs'.registry]
    rfl
  cases depth with
  | zero =>
    rw [runHook_zero hook] at ended
    cases ended
  | succ depth =>
    rw [runHook_succ hook] at ended ⊢
    obtain ⟨data', -, taken⟩ := taking_eq_ok ended
    rw [square, Procedure.run, taken] at ended ⊢
    dsimp only at ended ⊢
    cases hmade : (construct depth 0 ⟨"Square"⟩ (Dict.ofList data')
        (s.table 0 ⟨"Shape"⟩).1).2 with
    | error e =>
      rw [construct] at hmade
      rw [hmade] at ended
      cases (Procedure.run_finish ended).1
    | ok made =>
      have left := square_left hs' hmade
      rw [construct] at hmade
      rw [hmade] at ended ⊢
      exact (Procedure.run_finish ended).2.trans left

theorem refined_leavesInstances : refined.LeavesInstances := by
  intro schema cls data o made
  have hstart := Session.keeps_fresh [(registry (some "Shape"), false)]
  have registered := registered_of_made hstart made
  cases schema with
  | succ id =>
    refine isA_of_hookless hstart ?_ made
    exact Registry.hook?_eq_none (fun d hd => by cases hd) cls
  | zero =>
    have known : cls = .root ∨ cls = ⟨"Shape"⟩ ∨ cls = ⟨"Square"⟩ ∨ cls = ⟨"Sheet"⟩ := by
      have member := List.mem_of_elem_eq_true registered
      rcases List.mem_cons.1 member with rfl | member
      · exact Or.inl rfl
      · obtain ⟨d, hd, rfl⟩ := List.mem_map.1 member
        change d ∈ (registry (some "Shape")).declared at hd
        simp only [registry, List.mem_cons, List.not_mem_nil, or_false] at hd
        rcases hd with rfl | rfl | rfl <;> simp
    rcases known with rfl | rfl | rfl | rfl
    · exact isA_of_hookless hstart (by rfl) made
    · rw [shape_left hstart made]
      rfl
    · rw [square_left hstart made]
      rfl
    · exact isA_of_hookless hstart (by rfl) made

end SquareExample

end LazyBinding
