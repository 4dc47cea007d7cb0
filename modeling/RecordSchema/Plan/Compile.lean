import RecordSchema.Event
import RecordSchema.Plan.Basic
import RecordSchema.Plan.Reference

/-!
# Plans of a schema

`Schema.compile` turns the types of a schema into plans, after a check of their
references. Each type is compiled once, when it is declared or when a type
before it refers to it, and kept; later references share the plan.

The checks of a property stand in the order in which their failures count: the
kind of the value first, then a whole number, the start of a string, the least
length, and what is inside an object or an array. Transforms of an array's items
have no effect, which is reported.
-/

namespace RecordSchema

/-- A step of compilation: it may fail, reports events, and keeps the plans of
the types compiled so far. -/
abbrev Compiling := StateT (Entries ObjectPlan) (Logged SchemaError)

namespace Compiling

/-- Reports an event. -/
def report (event : Event) : Compiling Unit :=
  StateT.lift (Logged.report event)

/-- Fails. -/
def fail {α : Type} (error : SchemaError) : Compiling α :=
  StateT.lift (Logged.fail error)

end Compiling

namespace Check

/-- The checks of a string. -/
def ofString (minLength : Option UInt64) (startsWith : Option String) : List Check :=
  [.kind .string] ++ (startsWith.map Check.startsWith).toList ++
    (minLength.map Check.minLength).toList

/-- The checks of a number. -/
def ofNumber (isInteger : Bool) : List Check :=
  if isInteger then [.kind .number, .integer] else [.kind .number]

/-- The checks of an array whose items go through `items`. -/
def ofArray (minLength : Option UInt64) (items : List Check) : List Check :=
  [.kind .array] ++ (minLength.map Check.minLength).toList ++ [.items items]

/-- The checks of an inline object. -/
def ofObject (plan : ObjectPlan) : List Check :=
  [.kind .object, .fields plan]

/-- The checks of an object of a declared type. -/
def ofReference (plan : ObjectPlan) : List Check :=
  [.kind .object, .reference plan]

end Check

namespace Schema

mutual

/-- The checks of a property at a path; `resolve` gives the plan of a type. -/
def compileSpec (resolve : String → Compiling ObjectPlan) (path : String) :
    PropertySpec → Compiling (List Check)
  | ⟨type, _, _⟩ => compileType resolve path type

/-- The checks of a property type at a path. -/
def compileType (resolve : String → Compiling ObjectPlan) (path : String) :
    PropertyType → Compiling (List Check)
  | .string minLength startsWith => return Check.ofString minLength startsWith
  | .number isInteger => return Check.ofNumber isInteger
  | .boolean => return [.kind .boolean]
  | .object properties => do
    let plans ← compileProperties resolve path properties
    return Check.ofObject ⟨path, plans⟩
  | .array minLength items => do
    unless items.transforms.isEmpty do
      Compiling.report (.ignoredItemTransform path)
    let checks ← compileSpec resolve (path ++ "[]") items
    return Check.ofArray minLength checks
  | .named target => do
    let plan ← resolve target
    return Check.ofReference plan

/-- The plans of the properties of an object at a path. -/
def compileProperties (resolve : String → Compiling ObjectPlan) (path : String) :
    List (String × PropertySpec) → Compiling (List PropertyPlan)
  | [] => return []
  | (key, spec) :: rest => do
    let checks ← compileSpec resolve (path ++ "." ++ key) spec
    let plans ← compileProperties resolve path rest
    return ⟨key, spec.required, spec.transforms, checks⟩ :: plans

end

/-- The plan of a type: the one that is kept, or a new one, which is then kept.
`fuel` bounds the number of types on the way to this one. -/
def typePlan (schema : Schema) : Nat → String → Compiling ObjectPlan
  | 0, name => Compiling.fail (.malformed (.undeclaredType name))
  | fuel + 1, name => do
    let kept ← get
    match kept.get? name with
    | some plan => return plan
    | none =>
      match schema.get? name with
      | none => Compiling.fail (.malformed (.undeclaredType name))
      | some properties => do
        let plans ← compileProperties (typePlan schema fuel) name properties
        let plan : ObjectPlan := ⟨name, plans⟩
        Compiling.report (.compiledType name properties.length)
        modify fun kept => kept ++ [(name, plan)]
        return plan

/-- The plans of the given types. References that lead in no circle pass at most
all types of the schema. -/
def typePlans (schema : Schema) : List String → Compiling (List ObjectPlan)
  | [] => return []
  | name :: rest => do
    let plan ← typePlan schema schema.length name
    let plans ← typePlans schema rest
    return plan :: plans

/-- The plans of all types of a schema. Fails if a reference names no declared
type or if types refer to each other in a circle. -/
def compile (schema : Schema) : Logged SchemaError CompiledSchema := do
  Logged.ofExcept schema.checkReferences
  let (plans, _) ← (typePlans schema schema.names).run []
  Logged.report (.compiledSchema plans.length)
  return ⟨plans⟩

end Schema

end RecordSchema
