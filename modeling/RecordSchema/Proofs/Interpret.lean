import RecordSchema.Validation.Report

/-!
# A schema as an interpreter

`Schema.interpret` says what a schema asks of a record, with no plans in between.
It walks the schema and the record together and looks a named type up when it is
reached. It is what compiled plans are measured against.

A walk goes down the record and not down the schema, so that it ends for every
schema, also for one whose types refer to each other in a circle: every step
into an object or an array leaves a value of smaller `Json.size`.
-/

namespace RecordSchema

namespace Json

/-! ## The size of a value -/

mutual

/-- How many objects and arrays a value consists of. -/
def size : Json → Nat
  | .array elements => sizeElements elements + 1
  | .object members => sizeMembers members + 1
  | _ => 0

/-- How many objects and arrays the elements of an array consist of. -/
def sizeElements : List Json → Nat
  | [] => 0
  | element :: rest => size element + sizeElements rest

/-- How many objects and arrays the members of an object consist of. -/
def sizeMembers : List (String × Json) → Nat
  | [] => 0
  | (_, value) :: rest => size value + sizeMembers rest

end

theorem size_array (elements : List Json) : (array elements).size = sizeElements elements + 1 := by
  rw [size]

theorem size_object (members : List (String × Json)) :
    (object members).size = sizeMembers members + 1 := by
  rw [size]

theorem size_le_of_get? {members : Entries Json} {name : String} {value : Json}
    (h : members.get? name = some value) : value.size ≤ sizeMembers members := by
  induction members with
  | nil => cases h
  | cons member rest ih =>
      obtain ⟨key, first⟩ := member
      rw [Entries.get?_cons] at h
      rw [sizeMembers]
      by_cases hkey : key = name
      · rw [if_pos hkey] at h
        cases h
        exact Nat.le_add_right _ _
      · rw [if_neg hkey] at h
        exact Nat.le_add_left_of_le (ih h)

end Json

namespace Transform

theorem size_apply (transform : Transform) (value : Json) :
    (transform.apply value).size = value.size := by
  cases value with
  | null => rfl
  | boolean _ => rfl
  | array _ => rfl
  | object _ => rfl
  | number n => cases transform <;> rfl
  | string text =>
      cases transform with
      | trim => rfl
      | lowercase => rfl
      | toInteger =>
          rw [apply, applyText]
          split <;> rfl

theorem size_applyAll (transforms : List Transform) (value : Json) :
    (applyAll transforms value).size = value.size := by
  induction transforms generalizing value with
  | nil => rfl
  | cons transform rest ih => rw [applyAll_cons, ih, size_apply]

end Transform

/-! ## The rules of the primitives -/

/-- The kind of value that a type asks for. -/
def PropertyType.kind : PropertyType → ValueKind
  | string .. => .string
  | number .. => .number
  | boolean => .boolean
  | object .. => .object
  | array .. => .array
  | named .. => .object

/-- The first rule of a string that a text breaks. -/
def textViolation? (minLength : Option UInt64) (start : Option String) (text : String) :
    Option Violation :=
  (start.filter fun start => ¬ start.toList <+: text.toList).map .wrongStart <|>
    (minLength.filter fun least => text.length < least.toNat).map .tooFewCharacters

/-- The rule of a number that a number breaks. -/
def numberViolation? (isInteger : Bool) (n : Number) : Option Violation :=
  if isInteger ∧ ¬ n.isWhole then some .notWhole else none

/-- The rule of an array that a number of elements breaks. -/
def lengthViolation? (minLength : Option UInt64) (length : Nat) : Option Violation :=
  (minLength.filter fun least => length < least.toNat).map .tooFewItems

/-! ## Records -/

/-- What is said of one property of a record. -/
structure Verdict where
  key : String
  /-- What has become of its value, if it has one. -/
  value : Option Json
  failure : Option Failure

namespace Verdict

/-- The verdict on a property without a value. -/
def ofMissing (key : String) (required : Bool) : Verdict :=
  ⟨key, none, if required then some (.missing key) else none⟩

/-- The verdict on a property whose value has been judged. -/
def ofChecked (key : String) (checked : Checked) : Verdict :=
  ⟨key, some checked.value, checked.violation.map (.violated key)⟩

/-- The members of an object with the values of the verdicts in their places. -/
def rewrite (record : Entries Json) (verdicts : List Verdict) : Entries Json :=
  verdicts.foldl (fun output verdict =>
    match verdict.value with
    | none => output
    | some value => output.put verdict.key value) record

/-- The failures of an object, in order. -/
def failures (verdicts : List Verdict) : List Failure :=
  verdicts.filterMap Verdict.failure

@[simp] theorem rewrite_nil (record : Entries Json) : rewrite record [] = record := rfl

@[simp] theorem rewrite_ofMissing (record : Entries Json) (key : String) (required : Bool)
    (rest : List Verdict) :
    rewrite record (ofMissing key required :: rest) = rewrite record rest := rfl

@[simp] theorem rewrite_ofChecked (record : Entries Json) (key : String) (checked : Checked)
    (rest : List Verdict) :
    rewrite record (ofChecked key checked :: rest) =
      rewrite (record.put key checked.value) rest := rfl

theorem failures_cons (verdict : Verdict) (rest : List Verdict) :
    failures (verdict :: rest) = verdict.failure.toList ++ failures rest := by
  rw [failures, List.filterMap_cons]
  cases verdict.failure <;> rfl

/-- What the verdicts on the properties of an object say of it as a value. Of its
failures only the first counts. -/
def ofObject (record : Entries Json) (verdicts : List Verdict) : Checked :=
  ⟨.object (rewrite record verdicts), (failures verdicts).head?.map .nested⟩

end Verdict

namespace Schema

mutual

/-- What a type of the schema makes of a value, and the first of its rules that the
value breaks. -/
def judge (schema : Schema) : PropertyType → Json → Checked
  | .string minLength start, .string text =>
    ⟨.string text, textViolation? minLength start text⟩
  | .number isInteger, .number n => ⟨.number n, numberViolation? isInteger n⟩
  | .boolean, .boolean value => ⟨.boolean value, none⟩
  | .object properties, .object record =>
    Verdict.ofObject record (judgeProperties schema record properties)
  | .named target, .object record =>
    Verdict.ofObject record (judgeProperties schema record ((schema.get? target).getD []))
  | .array minLength ⟨type, _, _⟩, .array elements =>
    match lengthViolation? minLength elements.length with
    | some violation => ⟨.array elements, some violation⟩
    | none =>
      let judged := judgeElements schema type 0 elements
      ⟨.array judged.1, judged.2⟩
  | type, value => ⟨value, some (.wrongKind type.kind)⟩
termination_by _ value => (value.size, 0, 0)
decreasing_by
  · exact .left _ _ (by rw [Json.size_object]; exact Nat.lt_succ_self _)
  · exact .left _ _ (by rw [Json.size_object]; exact Nat.lt_succ_self _)
  · exact .left _ _ (by rw [Json.size_array]; exact Nat.lt_succ_self _)

/-- The verdicts on the properties of a record, in the order of their declaration. A
value is judged as its transforms leave it. -/
def judgeProperties (schema : Schema) (record : Entries Json) :
    List (String × PropertySpec) → List Verdict
  | [] => []
  | (key, spec) :: rest =>
    match _hraw : record.get? key with
    | none => .ofMissing key spec.required :: judgeProperties schema record rest
    | some raw =>
      .ofChecked key (judge schema spec.type (Transform.applyAll spec.transforms raw)) ::
        judgeProperties schema record rest
termination_by properties => (Json.sizeMembers record, 1, properties.length)
decreasing_by
  · exact .right _ (.right _ (Nat.lt_succ_self _))
  · refine .right' _ ?_ (.left _ _ Nat.zero_lt_one)
    rw [Transform.size_applyAll]
    exact Json.size_le_of_get? _hraw
  · exact .right _ (.right _ (Nat.lt_succ_self _))

/-- Judges the elements of an array from number `index` on, up to the first that
breaks a rule. Those behind it stay as they are. -/
def judgeElements (schema : Schema) (type : PropertyType) :
    Nat → List Json → List Json × Option Violation
  | _, [] => ([], none)
  | index, element :: rest =>
    let checked := judge schema type element
    match checked.violation with
    | some violation => (checked.value :: rest, some (.item index violation))
    | none =>
      let others := judgeElements schema type (index + 1) rest
      (checked.value :: others.1, others.2)
termination_by _ elements => (Json.sizeElements elements, 1, elements.length)
decreasing_by
  · refine .right' _ ?_ (.left _ _ Nat.zero_lt_one)
    exact Nat.le_add_right _ _
  · refine .right' _ ?_ (.right _ (Nat.lt_succ_self _))
    exact Nat.le_add_left _ _

end

@[simp] theorem judgeProperties_nil (schema : Schema) (record : Entries Json) :
    schema.judgeProperties record [] = [] := by
  rw [judgeProperties]

theorem judgeProperties_cons_of_none {schema : Schema} {record : Entries Json} {key : String}
    (h : record.get? key = none) (spec : PropertySpec) (rest : List (String × PropertySpec)) :
    schema.judgeProperties record ((key, spec) :: rest) =
      .ofMissing key spec.required :: schema.judgeProperties record rest := by
  rw [judgeProperties]
  split
  next => rfl
  next raw hraw => cases hraw.symm.trans h

theorem judgeProperties_cons_of_some {schema : Schema} {record : Entries Json} {key : String}
    {raw : Json} (h : record.get? key = some raw) (spec : PropertySpec)
    (rest : List (String × PropertySpec)) :
    schema.judgeProperties record ((key, spec) :: rest) =
      .ofChecked key (schema.judge spec.type (Transform.applyAll spec.transforms raw)) ::
        schema.judgeProperties record rest := by
  rw [judgeProperties]
  split
  next hraw => cases hraw.symm.trans h
  next raw' hraw =>
    cases hraw.symm.trans h
    rfl

/-- The report on a record of a declared type. -/
def interpret (schema : Schema) (name : String) : Json → Report
  | .object record =>
    let verdicts := judgeProperties schema record ((schema.get? name).getD [])
    ⟨(Verdict.failures verdicts).map fun failure => ⟨name, failure⟩,
      .object (Verdict.rewrite record verdicts)⟩
  | value => ⟨[⟨name, .notObject⟩], value⟩

end Schema

end RecordSchema
