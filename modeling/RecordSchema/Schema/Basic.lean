import RecordSchema.Entries
import RecordSchema.Schema.Error

/-!
# Schemas

A schema declares record types. Each type is a set of named properties, and each
property has a type of its own, may be required, and may list transforms that
its value goes through before it is checked. A property's type is a primitive
with the rules that apply to it, an inline object, an array, or the name of
another declared type.

Types and properties are in the order of their declaration, which is the order
of checks and reports. `PropertySet.insert` adds a property and `Schema.insert` a
type, at the end. Both refuse a name that is taken, and a type must have a name.
-/

namespace RecordSchema

/-- A step that a value goes through before it is checked. -/
inductive Transform where
  | trim
  | lowercase
  | toInteger
  deriving DecidableEq

namespace Transform

/-- The name of a transform in a schema document. -/
def name : Transform → String
  | trim => "trim"
  | lowercase => "lowercase"
  | toInteger => "toInteger"

/-- The names of the transforms. -/
def names : List String :=
  [trim, lowercase, toInteger].map name

/-- The transform of a name. -/
def ofName? (name : String) : Option Transform :=
  [trim, lowercase, toInteger].find? fun transform => transform.name == name

@[simp] theorem ofName?_name (transform : Transform) :
    ofName? transform.name = some transform := by
  cases transform <;> decide

end Transform

mutual

/-- What a property asks of its value. -/
structure PropertySpec where
  type : PropertyType
  required : Bool
  transforms : List Transform

/-- The type of a property with the rules that apply to it. -/
inductive PropertyType where
  | string (minLength : Option UInt64) (startsWith : Option String)
  | number (isInteger : Bool)
  | boolean
  | object (properties : List (String × PropertySpec))
  | array (minLength : Option UInt64) (items : PropertySpec)
  /-- A value of another type of the schema. -/
  | named (target : String)

end

/-- Named properties, in the order of their declaration. -/
abbrev PropertySet := Entries PropertySpec

/-- Named record types, in the order of their declaration. -/
abbrev Schema := Entries PropertySet

/-- The name of a property type: that of the primitive, or of the target. -/
def PropertyType.name : PropertyType → String
  | string .. => "string"
  | number .. => "number"
  | boolean => "boolean"
  | object .. => "object"
  | array .. => "array"
  | named target => target

namespace PropertySpec

/-! ## Building a property -/

/-- A required property without transforms. -/
def ofType (type : PropertyType) : PropertySpec :=
  ⟨type, true, []⟩

/-- A required string. -/
def string : PropertySpec :=
  ofType (.string none none)

/-- A required number. -/
def number : PropertySpec :=
  ofType (.number false)

/-- A required Boolean. -/
def boolean : PropertySpec :=
  ofType .boolean

/-- A required object with the given properties. -/
def object (properties : PropertySet) : PropertySpec :=
  ofType (.object properties)

/-- A required array of such items. -/
def array (items : PropertySpec) : PropertySpec :=
  ofType (.array none items)

/-- A required value of a declared type. -/
def named (target : String) : PropertySpec :=
  ofType (.named target)

/-- The property made optional. -/
def optional (spec : PropertySpec) : PropertySpec :=
  { spec with required := false }

/-- The property with one more transform behind the others. -/
def withTransform (spec : PropertySpec) (transform : Transform) : PropertySpec :=
  { spec with transforms := spec.transforms ++ [transform] }

/-- The property with a least length. Only strings and arrays have one. -/
def withMinLength (spec : PropertySpec) (length : UInt64) : PropertySpec :=
  match spec.type with
  | .string _ start => { spec with type := .string (some length) start }
  | .array _ items => { spec with type := .array (some length) items }
  | _ => spec

/-- The property with a text that its value has to start with. Only strings have
one. -/
def withStart (spec : PropertySpec) (start : String) : PropertySpec :=
  match spec.type with
  | .string length _ => { spec with type := .string length (some start) }
  | _ => spec

/-- The property restricted to whole numbers. Only numbers can be. -/
def integer (spec : PropertySpec) : PropertySpec :=
  match spec.type with
  | .number _ => { spec with type := .number true }
  | _ => spec

/-! ## Equality -/

mutual

/-- Whether two properties ask the same. -/
def same : PropertySpec → PropertySpec → Bool
  | ⟨type, required, transforms⟩, other =>
    sameType type other.type && required == other.required && transforms == other.transforms

/-- Whether two property types are equal, with their rules. -/
def sameType : PropertyType → PropertyType → Bool
  | .string n s, .string m t => n == m && s == t
  | .number a, .number b => a == b
  | .boolean, .boolean => true
  | .object ps, .object qs => sameProperties ps qs
  | .array n x, .array m y => n == m && same x y
  | .named a, .named b => a == b
  | _, _ => false

/-- Whether two sets hold the same properties in the same order. -/
def sameProperties : List (String × PropertySpec) → List (String × PropertySpec) → Bool
  | [], [] => true
  | (a, x) :: ps, (b, y) :: qs => a == b && same x y && sameProperties ps qs
  | _, _ => false

end

end PropertySpec

/-! ## Adding to a set or a schema -/

/-- The set with one more property. Fails if the name is taken. -/
def PropertySet.insert (set : PropertySet) (name : String) (spec : PropertySpec) :
    Except SchemaError PropertySet :=
  if set.has name then
    .error (.malformed (.content (.duplicateEntry .property name)))
  else
    .ok (set ++ [(name, spec)])

/-- The schema with one more type. Fails if the name is empty or taken. -/
def Schema.insert (schema : Schema) (name : String) (properties : PropertySet) :
    Except SchemaError Schema :=
  if name = "" then
    .error (.malformed (.content .emptyTypeName))
  else if schema.has name then
    .error (.malformed (.content (.duplicateEntry .type name)))
  else
    .ok (schema ++ [(name, properties)])

end RecordSchema
