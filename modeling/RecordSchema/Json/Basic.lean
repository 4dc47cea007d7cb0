import RecordSchema.Entries
import RecordSchema.Number.Basic

/-!
# Document values

`Json` is the value of a JSON document. An object keeps its members in order,
and a number keeps its kind: integer or float.

`Json.same` is equality of values, which looks at neither the order of an
object's members nor the sign of a float zero.
-/

namespace RecordSchema

/-- The value of a JSON document. The members of an object are in order. -/
inductive Json where
  | null
  | boolean (value : Bool)
  | number (value : Number)
  | string (value : String)
  | array (elements : List Json)
  | object (members : List (String × Json))

namespace Json

instance : Inhabited Json := ⟨null⟩

mutual

/-- Equality of values. Members of an object may stand in any order. -/
def same : Json → Json → Bool
  | .null, .null => true
  | .boolean a, .boolean b => a == b
  | .number a, .number b => a.same b
  | .string a, .string b => a == b
  | .array xs, .array ys => sameElements xs ys
  | .object xs, .object ys => xs.length == ys.length && sameMembers xs ys
  | _, _ => false

/-- Equality of elements, place by place. -/
def sameElements : List Json → List Json → Bool
  | [], [] => true
  | x :: xs, y :: ys => same x y && sameElements xs ys
  | _, _ => false

/-- Whether every member has a counterpart of the same name and value. -/
def sameMembers : List (String × Json) → Entries Json → Bool
  | [], _ => true
  | (name, x) :: xs, ys =>
    (match ys.get? name with
      | some y => same x y
      | none => false) && sameMembers xs ys

end

/-- The integer `n` as a value, if a 64-bit word holds it. -/
def ofInt? (n : Int) : Option Json :=
  (Integer.ofInt? n).map fun i => number (.integer i)

/-- The members of an object. -/
def members? : Json → Option (Entries Json)
  | object members => some members
  | _ => none

end Json

end RecordSchema
