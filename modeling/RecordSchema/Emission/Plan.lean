import RecordSchema.Emission.Expression
import RecordSchema.Plan.Basic

/-!
# Plans as expressions

A plan is emitted as the calls that build it. The plan of a declared type is not
built again where it is referred to: the expression clones the static that holds
it, so that the emitted code shares plans as the compiled schema does.
-/

namespace RecordSchema

namespace Emission

/-- The word for a kind of value. -/
def kindWord : ValueKind → String
  | .string => "ValueKind::String"
  | .number => "ValueKind::Number"
  | .boolean => "ValueKind::Boolean"
  | .object => "ValueKind::Object"
  | .array => "ValueKind::Array"

/-- The word for a transform. -/
def transformWord : Transform → String
  | .trim => "Transform::Trim"
  | .lowercase => "Transform::Lowercase"
  | .toInteger => "Transform::ToInteger"

/-- Whether a check holds other checks, so that a list with it takes several
lines. -/
def hasInside : Check → Bool
  | .fields _ => true
  | .reference _ => true
  | .items _ => true
  | _ => false

/-- The layout of a list of checks. -/
def checksLayout (checks : List Check) : Layout :=
  if checks.any hasInside then .block else .inline

/-- The expression for a list of transforms. -/
def transformsExpression (transforms : List Transform) : Expression :=
  .vector .inline (transforms.map fun transform => .word (transformWord transform))

mutual

/-- The expression for a plan. `statics` names the static of each declared type. -/
def planExpression (statics : Entries String) : ObjectPlan → Expression
  | ⟨name, properties⟩ =>
    .call "ObjectPlan::new" .block
      [.literal name, .vector .block (propertyExpressions statics properties)]

/-- The expressions for the plans of properties. -/
def propertyExpressions (statics : Entries String) : List PropertyPlan → List Expression
  | [] => []
  | property :: rest =>
    propertyExpression statics property :: propertyExpressions statics rest

/-- The expression for the plan of a property. -/
def propertyExpression (statics : Entries String) : PropertyPlan → Expression
  | ⟨key, required, transforms, checks⟩ =>
    .call "PropertyPlan::new" .block
      [.literal key, .word (if required then "true" else "false"),
        transformsExpression transforms,
        .vector (checksLayout checks) (checkExpressions statics checks)]

/-- The expressions for checks. -/
def checkExpressions (statics : Entries String) : List Check → List Expression
  | [] => []
  | check :: rest => checkExpression statics check :: checkExpressions statics rest

/-- The expression for a check. -/
def checkExpression (statics : Entries String) : Check → Expression
  | .kind kind => .call "Check::Kind" .inline [.word (kindWord kind)]
  | .integer => .word "Check::Integer"
  | .startsWith start => .call "Check::Prefix" .inline [.owned start]
  | .minLength length =>
    .call "Check::MinLength" .inline [.word (toString length.toNat)]
  | .fields plan =>
    .call "Check::Fields" .inline
      [.call "Arc::new" .inline [planExpression statics plan]]
  | .reference plan =>
    .call "Check::Fields" .inline
      [match statics.get? plan.name with
        | some static => .call "Arc::clone" .inline [.word ("&*" ++ static)]
        | none => .call "Arc::new" .inline [planExpression statics plan]]
  | .items checks =>
    .call "Check::Items" .inline
      [.call "Box::new" .inline
        [.call "ItemPlan::new" .inline
          [.vector (checksLayout checks) (checkExpressions statics checks)]]]

end

end Emission

end RecordSchema
