import LazyBinding.Object.Export

/-!
# Construction

An object is made by binding data to the compiled table of its class and then running the hook of
the class, which may make further objects. Each hook inside another one uses up one level of the
allowed depth.
-/
namespace LazyBinding

mutual

/-- The value with each object in it bound to the table of its class and each dictionary without
repeated keys. A value that operations gave back is that way already. -/
def Value.rebind (table : SchemaId → ClassPath → Except SchemaError FieldTable) :
    Value → Except SchemaError Value
  | .array items => (rebindItems table items).map .array
  | .map entries => (rebindEntries table entries).map fun entries => .map (Dict.ofList entries)
  | .object schema cls _ data =>
    match table schema cls, rebindEntries table data with
    | .error e, _ => .error e
    | .ok _, .error e => .error e
    | .ok fields, .ok data => .ok (.object schema cls fields (Dict.ofList data))
  | v => .ok v

def Value.rebindItems (table : SchemaId → ClassPath → Except SchemaError FieldTable) :
    List Value → Except SchemaError (List Value)
  | [] => .ok []
  | v :: rest =>
    match v.rebind table, rebindItems table rest with
    | .error e, _ => .error e
    | .ok _, .error e => .error e
    | .ok v, .ok rest => .ok (v :: rest)

def Value.rebindEntries (table : SchemaId → ClassPath → Except SchemaError FieldTable) :
    List (String × Value) → Except SchemaError (List (String × Value))
  | [] => .ok []
  | (key, v) :: rest =>
    match v.rebind table, rebindEntries table rest with
    | .error e, _ => .error e
    | .ok _, .error e => .error e
    | .ok v, .ok rest => .ok ((key, v) :: rest)

end

abbrev HookRunner := BoundObject → Session → Effect Unit

/-- Makes an object by binding data and running the hook of its class. -/
def HookRunner.builder (hooks : HookRunner) : Builder := fun schema cls data s =>
  match s.table schema cls with
  | (s, .error e) => (s, .error (.schema e))
  | (s, .ok table) =>
    let effect := hooks ⟨schema, cls, table, data⟩ s
    (effect.session, effect.result.map fun _ => effect.object)

namespace BoundObject

def rebind (o : BoundObject) (s : Session) : Except SchemaError BoundObject :=
  match s.coldTable o.schema o.cls, Value.rebindEntries s.coldTable o.data with
  | .error e, _ => .error e
  | .ok _, .error e => .error e
  | .ok table, .ok data => .ok ⟨o.schema, o.cls, table, Dict.ofList data⟩

def taking {α β : Type} (o : BoundObject) (s : Session) (given : Except SchemaError α)
    (next : α → Effect β) : Effect β :=
  match given with
  | .error e => ⟨s, o, .error (.schema e)⟩
  | .ok a => next a

/-- Carries out a call. `depth` levels of objects may lie below each other. -/
def perform (hooks : HookRunner) (depth : Nat) (o : BoundObject) (s : Session) :
    (call : ObjectCall) → Effect call.Result
  | .get field => o.readWith hooks.builder field s
  | .openSlot field => o.openSlotWith hooks.builder field s
  | .set field v =>
    o.taking s (v.rebind s.coldTable) fun v => o.writeWith hooks.builder field v s
  | .assign data =>
    o.taking s (Value.rebindEntries s.coldTable data) fun data =>
      hooks { o with data := Dict.ofList data } s
  | .analyze deep => o.analyzeWith hooks.builder depth deep s
  | .validate => o.validateWith hooks.builder depth s
  | .exported =>
    let exported := o.exportWith hooks.builder depth s
    ⟨exported.1, o, exported.2⟩

end BoundObject

def HookStop.result (cls : ClassPath) : Option HookStop → Except ObjectError Unit
  | none => .ok ()
  | some (.object e) => .error e
  | some (.other messages) => .error (.hookFailure cls messages)

def Procedure.run (hooks : HookRunner) (depth : Nat) (o : BoundObject) :
    Procedure → Session → Effect Unit
  | .finish left stop, s =>
    o.taking s (left.rebind s) fun left => ⟨s, left, HookStop.result left.cls stop⟩
  | .make schema cls data next, s =>
    o.taking s (Value.rebindEntries s.coldTable data) fun data =>
      let made := hooks.builder schema cls (Dict.ofList data) s
      run hooks depth o (next made.2) made.1
  | .call target request next, s =>
    o.taking s (target.rebind s) fun target =>
      let effect := target.perform hooks depth s request
      run hooks depth o (next effect.object effect.result) effect.session
  | .table schema cls next, s =>
    let found := s.table schema cls
    run hooks depth o (next found.2) found.1
  | .clear schema next, s => run hooks depth o next (s.onSchema schema Schema.clearCache).1

namespace BoundObject

/-- Runs the hook of the object's class, with at most `depth` hooks inside each other. -/
def runHook : (depth : Nat) → HookRunner
  | depth, o, s =>
    match (s.registry o.schema).hook? o.cls, depth with
    | none, _ => ⟨s, o, .ok ()⟩
    | some _, 0 => ⟨s, o, .error (.endless o.cls)⟩
    | some hook, depth + 1 => (hook o).run (runHook depth) depth o s

section

variable {depth : Nat} {o : BoundObject} {s : Session} {hook : Hook}

theorem runHook_hookless (h : (s.registry o.schema).hook? o.cls = none) :
    runHook depth o s = ⟨s, o, .ok ()⟩ := by
  unfold runHook
  simp only [h]

theorem runHook_zero (h : (s.registry o.schema).hook? o.cls = some hook) :
    runHook 0 o s = ⟨s, o, .error (.endless o.cls)⟩ := by
  unfold runHook
  simp only [h]

theorem runHook_succ (h : (s.registry o.schema).hook? o.cls = some hook) :
    runHook (depth + 1) o s = (hook o).run (runHook depth) depth o s := by
  unfold runHook
  simp only [h]

end

def construct (depth : Nat) : Builder := (runHook depth).builder

end BoundObject

end LazyBinding
