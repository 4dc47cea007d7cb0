import RecordSchema.Json.Basic
import RecordSchema.Schema.Basic

/-!
# Plans

A plan is what a record type comes down to: for each property, in order, whether
it must be there, the transforms of its value, and the checks that the
transformed value goes through one by one. Plans made from a schema put the
checks in a fixed order; a plan built by hand may hold any.

An object is checked by a plan of its own. `Check.fields` holds one that belongs
to this place, `Check.reference` the plan of a declared type, which every
property of that type shares.
-/

namespace RecordSchema

/-- The kind of value that a check asks for. -/
inductive ValueKind where
  | string
  | number
  | boolean
  | object
  | array
  deriving DecidableEq

namespace ValueKind

/-- The name of a kind in messages. -/
def name : ValueKind → String
  | string => "string"
  | number => "number"
  | boolean => "boolean"
  | object => "object"
  | array => "array"

/-- The kinds. -/
def all : List ValueKind :=
  [string, number, boolean, object, array]

/-- The kind of a name. -/
def ofName? (name : String) : Option ValueKind :=
  all.find? fun kind => kind.name == name

/-- Whether a value is of the kind. Null is of none. -/
def holds : ValueKind → Json → Bool
  | string, .string _ => true
  | number, .number _ => true
  | boolean, .boolean _ => true
  | object, .object _ => true
  | array, .array _ => true
  | _, _ => false

@[simp] theorem holds_null (kind : ValueKind) : kind.holds .null = false := by
  cases kind <;> rfl

end ValueKind

mutual

/-- The plan of a record type, or of an inline object, which is named by its
path. -/
structure ObjectPlan where
  name : String
  properties : List PropertyPlan

/-- The plan of a property. -/
structure PropertyPlan where
  key : String
  required : Bool
  transforms : List Transform
  checks : List Check

/-- A check of a value that is there and has been transformed. -/
inductive Check where
  | kind (kind : ValueKind)
  /-- The number is whole. -/
  | integer
  /-- The string starts with the text. -/
  | startsWith (start : String)
  /-- The string has at least so many characters, the array so many elements. -/
  | minLength (length : UInt64)
  /-- The object satisfies a plan of its own. -/
  | fields (plan : ObjectPlan)
  /-- The object satisfies the plan of the declared type of that plan's name. -/
  | reference (plan : ObjectPlan)
  /-- Every element of the array goes through the checks. -/
  | items (checks : List Check)

end

/-- The plans of a schema's types, in the order of declaration. -/
structure CompiledSchema where
  plans : List ObjectPlan

namespace CompiledSchema

/-- The plan of a type. -/
def get? (compiled : CompiledSchema) (typeName : String) : Option ObjectPlan :=
  compiled.plans.find? fun plan => plan.name == typeName

/-- The names of the types, in order. -/
def typeNames (compiled : CompiledSchema) : List String :=
  compiled.plans.map ObjectPlan.name

end CompiledSchema

end RecordSchema
