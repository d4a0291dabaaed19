import LazyBinding.Object.Access

/-!
# Analysis

An analysis reads every stored field of an object, and on demand of all objects below it, and
reports the fields that are not declared and those that do not convert. It goes on after each
problem. Hooks can nest objects without end, so the depth is limited; an analysis that meets the
limit is not complete.
-/
namespace LazyBinding

structure Analysed where
  session : Session
  object : BoundObject
  report : Report
  isComplete : Bool

structure AnalysedValue where
  session : Session
  value : Value
  report : Report
  isComplete : Bool

structure AnalysedItems where
  session : Session
  items : List Value
  report : Report
  isComplete : Bool

/-- Analyses an object at a path and adds to a report. -/
abbrev Analyser := BoundObject → String → Report → Session → Analysed

def analyseItems (item : String → Value → Report → Session → AnalysedValue) (path : String) :
    (index : Nat) → List Value → Report → Session → AnalysedItems
  | _, [], report, s => ⟨s, [], report, true⟩
  | index, v :: rest, report, s =>
    let first := item (Report.itemPath path index) v report s
    let others := analyseItems item path (index + 1) rest first.report first.session
    ⟨others.session, first.value :: others.items, others.report,
      first.isComplete && others.isComplete⟩

/-- Analyses the objects that stand `depth` array levels below a value. -/
def analyseNested (inner : Analyser) :
    (depth : Nat) → (path : String) → Value → Report → Session → AnalysedValue
  | 0, path, .object schema cls table data, report, s =>
    let nested := inner ⟨schema, cls, table, data⟩ path report s
    ⟨nested.session, .ofObject nested.object, nested.report, nested.isComplete⟩
  | depth + 1, path, .array items, report, s =>
    let all := analyseItems (analyseNested inner depth) path 0 items report s
    ⟨all.session, .array all.items, all.report, all.isComplete⟩
  | _, _, v, report, s => ⟨s, v, report, true⟩

namespace BoundObject

/-- Analyses one stored field. Below it, the objects of an object-typed field are handed to `inner`
if there is one. -/
def analyseField (build : Builder) (inner : Option Analyser) (before : String) (a : Analysed)
    (field : String) : Analysed :=
  match a.object.slot? field with
  | none => a
  | some v =>
    let path := Report.joinPath before field
    let declared := Dict.get? a.object.table field
    let report := if declared.isNone then a.report.addMissing a.object.cls path else a.report
    let type := declared.getD .untyped
    let effect := a.object.materializeSlot build field type v a.session
    match effect.result with
    | .error e =>
      ⟨effect.session, effect.object, report.addBad effect.object.cls path e.message,
        a.isComplete⟩
    | .ok v =>
      match inner with
      | some inner =>
        if type.isObject then
          let nested := analyseNested inner type.depth path v report effect.session
          ⟨nested.session, effect.object.put field nested.value, nested.report,
            a.isComplete && nested.isComplete⟩
        else ⟨effect.session, effect.object, report, a.isComplete⟩
      | none => ⟨effect.session, effect.object, report, a.isComplete⟩

def analyseFlat (build : Builder) (o : BoundObject) (s : Session) : Analysed :=
  (Dict.names o.data).foldl (analyseField build none "") ⟨s, o, .empty, true⟩

/-- Analyses the object at a path and all objects at most `depth` levels below. -/
def analyseDeep (build : Builder) : (depth : Nat) → Analyser
  | 0, o, _, report, s => ⟨s, o, report, false⟩
  | depth + 1, o, path, report, s =>
    (Dict.names o.data).foldl (analyseField build (some (analyseDeep build depth)) path)
      ⟨s, o, report, true⟩

def analyzeWith (build : Builder) (depth : Nat) (deep : Bool) (o : BoundObject) (s : Session) :
    Effect Report :=
  let found := if deep then analyseDeep build depth o "" .empty s else o.analyseFlat build s
  if found.isComplete then ⟨found.session, found.object, .ok found.report⟩
  else ⟨found.session, found.object, .error (.endless o.cls)⟩

def validateWith (build : Builder) (depth : Nat) (o : BoundObject) (s : Session) : Effect Unit :=
  let all := analyseDeep build depth o "" .empty s
  if !all.isComplete then ⟨all.session, all.object, .error (.endless o.cls)⟩
  else if all.report.hasProblems then
    ⟨all.session, all.object, .error (.validation o.cls all.report)⟩
  else ⟨all.session, all.object, .ok ()⟩

end BoundObject

end LazyBinding
