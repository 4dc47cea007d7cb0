import RecordSchema.Schema.FromText
import RecordSchema.Schema.FromValue

/-!
# Building schemas step by step

A `Workbench` holds properties and property sets under names of their own, and
one schema. A `Step` makes something new, reads it from a document, changes it,
or puts a copy of one thing into another. Documents are texts or values in
memory. What is put into a set or into the schema no longer changes with the
workbench.

A step that fails leaves everything as it was, with one exception: `Step.setWith`
and `Step.typeWith` use up what they add to, and a refusal leaves nothing of it.
-/

namespace RecordSchema

/-- The properties, the sets and the schema under construction. -/
structure Workbench where
  specs : Entries PropertySpec
  sets : Entries PropertySet
  schema : Schema

namespace Workbench

/-- A workbench with an empty schema and nothing else. -/
def empty : Workbench := ⟨[], [], []⟩

end Workbench

/-- What a new property is made of: a primitive, a set or a property on the
workbench, or the name of a type. -/
inductive SpecBase where
  | string
  | number
  | boolean
  | object (set : String)
  | array (items : String)
  | named (target : String)

/-- A change to a property. -/
inductive SpecChange where
  | optional
  | minLength (length : UInt64)
  | startsWith (start : String)
  | isInteger
  | transform (transform : Transform)

/-- The property after a change. -/
def SpecChange.apply (spec : PropertySpec) : SpecChange → PropertySpec
  | optional => spec.optional
  | minLength length => spec.withMinLength length
  | startsWith start => spec.withStart start
  | isInteger => spec.integer
  | transform t => spec.withTransform t

/-- A step on a workbench. -/
inductive Step where
  | newSpec (id : String) (base : SpecBase)
  | changeSpec (id : String) (change : SpecChange)
  | readSpec (id : String) (text : String)
  | specOfValue (id : String) (value : Json)
  | newSet (id : String)
  | readSet (id : String) (text : String)
  | setOfValue (id : String) (value : Json)
  /-- Adds a property to a set. -/
  | setInsert (id : String) (name : String) (spec : String)
  /-- Replaces a set by one with the property added. -/
  | setWith (id : String) (name : String) (spec : String)
  /-- Adds a type to the schema. -/
  | typeInsert (name : String) (set : String)
  /-- Replaces the schema by one with the type added. -/
  | typeWith (name : String) (set : String)
  /-- Replaces the schema by that of a document. -/
  | readSchema (text : String)
  | schemaOfValue (value : Json)

/-- A reason why a step fails. -/
inductive StepError where
  /-- Nothing has this name on the workbench. -/
  | unset (id : String)
  | refused (error : SchemaError)
  | unreadable (error : PlacedError)

/-- What a step has made or changed. -/
inductive StepResult where
  | spec (spec : PropertySpec)
  | set (set : PropertySet)
  | schema (schema : Schema)

namespace Workbench

/-- The property under a name. -/
def spec? (bench : Workbench) (id : String) : Except StepError PropertySpec :=
  match bench.specs.get? id with
  | some spec => .ok spec
  | none => .error (.unset id)

/-- The set under a name. -/
def set? (bench : Workbench) (id : String) : Except StepError PropertySet :=
  match bench.sets.get? id with
  | some set => .ok set
  | none => .error (.unset id)

/-- Keeps a property under a name. -/
def putSpec (bench : Workbench) (id : String) (spec : PropertySpec) : Workbench :=
  { bench with specs := bench.specs.put id spec }

/-- Keeps a set under a name. -/
def putSet (bench : Workbench) (id : String) (set : PropertySet) : Workbench :=
  { bench with sets := bench.sets.put id set }

/-- The property that a base gives. -/
def build (bench : Workbench) : SpecBase → Except StepError PropertySpec
  | .string => .ok .string
  | .number => .ok .number
  | .boolean => .ok .boolean
  | .object set => (bench.set? set).map PropertySpec.object
  | .array items => (bench.spec? items).map PropertySpec.array
  | .named target => .ok (.named target)

/-- The workbench after something that may fail: changed by a success, and
replaced by `lost` after a failure. -/
def settle {α : Type} (lost : Workbench) (attempt : Logged StepError α)
    (keep : α → Workbench × StepResult) : Workbench × Logged StepError StepResult :=
  match attempt.outcome with
  | .ok value => ((keep value).1, ⟨attempt.events, .ok (keep value).2⟩)
  | .error error => (lost, ⟨attempt.events, .error error⟩)

/-- The set with a property of the workbench added. -/
def extendSet (bench : Workbench) (set : PropertySet) (name : String) (spec : PropertySpec)
    (id : String) (lost : Workbench) : Workbench × Logged StepError StepResult :=
  settle lost (Logged.ofExcept ((set.insert name spec).mapError .refused)) fun extended =>
    (bench.putSet id extended, .set extended)

/-- The schema with a type added. -/
def extendSchema (bench : Workbench) (name : String) (set : PropertySet) (lost : Workbench) :
    Workbench × Logged StepError StepResult :=
  settle lost (Logged.ofExcept ((bench.schema.insert name set).mapError .refused)) fun extended =>
    (⟨bench.specs, bench.sets, extended⟩, .schema extended)

/-- The reason why a value in memory cannot be read. It has no place. -/
def unreadableValue (error : ContentError) : StepError :=
  .unreadable ⟨.content error, none⟩

/-- Takes a step. -/
def step (bench : Workbench) : Step → Workbench × Logged StepError StepResult
  | .newSpec id base =>
    settle bench (Logged.ofExcept (bench.build base)) fun spec =>
      (bench.putSpec id spec, .spec spec)
  | .changeSpec id change =>
    settle bench (Logged.ofExcept (bench.spec? id)) fun spec =>
      (bench.putSpec id (change.apply spec), .spec (change.apply spec))
  | .readSpec id text =>
    settle bench ((PropertySpec.ofText text).mapError .unreadable) fun spec =>
      (bench.putSpec id spec, .spec spec)
  | .specOfValue id value =>
    settle bench (value.propertySpec.mapError unreadableValue) fun spec =>
      (bench.putSpec id spec, .spec spec)
  | .newSet id => (bench.putSet id [], Logged.ok (.set []))
  | .readSet id text =>
    settle bench ((PropertySet.ofText text).mapError .unreadable) fun set =>
      (bench.putSet id set, .set set)
  | .setOfValue id value =>
    settle bench (value.propertySet.mapError unreadableValue) fun set =>
      (bench.putSet id set, .set set)
  | .setInsert id name spec =>
    match bench.spec? spec, bench.set? id with
    | .error error, _ => (bench, Logged.fail error)
    | _, .error error => (bench, Logged.fail error)
    | .ok spec, .ok set => bench.extendSet set name spec id bench
  | .setWith id name spec =>
    match bench.spec? spec, bench.set? id with
    | .error error, _ => (bench, Logged.fail error)
    | _, .error error => (bench, Logged.fail error)
    | .ok spec, .ok set =>
      bench.extendSet set name spec id { bench with sets := bench.sets.erase id }
  | .typeInsert name set =>
    match bench.set? set with
    | .error error => (bench, Logged.fail error)
    | .ok set => bench.extendSchema name set bench
  | .typeWith name set =>
    match bench.set? set with
    | .error error => (bench, Logged.fail error)
    | .ok set => bench.extendSchema name set { bench with schema := [] }
  | .readSchema text =>
    settle bench ((Schema.ofText text).mapError .refused) fun schema =>
      ({ bench with schema := schema }, .schema schema)
  | .schemaOfValue value =>
    settle bench ((Schema.ofValue value).mapError .refused) fun schema =>
      ({ bench with schema := schema }, .schema schema)

end Workbench

end RecordSchema
