import RecordSchema.Proofs.Document.Applies
import RecordSchema.Proofs.Document.Written

/-!
# Rules that are ignored

A rule that is given to a property of a type to which it does not apply is ignored with a warning.
`Json.schemaSpecs` lists the documents of properties that occur in the document of a schema,
wherever they are: also those below rules that are ignored themselves, since a rule is read before
it is known whether it applies. A document stands behind those inside of it, which is the order in
which they are completed. `Json.ignoredRules` are the warnings for one of them.

Reading reports these warnings and nothing else. `Logged.Reports` says so for a part of a document
and composes along the decoders.

Main statements: `Schema.events_ofValue` and `Schema.events_ofText`.
-/

namespace RecordSchema

/-! ## Documents of properties -/

namespace Json

mutual

/-- The documents of properties in the document of a property, the whole of it last. -/
def specs : Json → List Json
  | array elements => elementSpecs elements 0 ++ [array elements]
  | object members => memberSpecs members ++ [object members]
  | _ => []

/-- The documents of properties in the elements of a property's document, of which `position`
have come before. -/
def elementSpecs : List Json → Nat → List Json
  | [], _ => []
  | value :: rest, position =>
    (match SpecField.all[position]? with
      | some .properties => setSpecs value
      | some .items => specs value
      | _ => []) ++ elementSpecs rest (position + 1)

/-- The documents of properties in the members of a property's document. -/
def memberSpecs : List (String × Json) → List Json
  | [] => []
  | (name, value) :: rest =>
    (match SpecField.ofName? name with
      | some .properties => setSpecs value
      | some .items => specs value
      | _ => []) ++ memberSpecs rest

/-- The documents of properties in the document of a set of properties. -/
def setSpecs : Json → List Json
  | object members => entrySpecs members
  | _ => []

/-- The documents of properties in the members of a set's document. -/
def entrySpecs : List (String × Json) → List Json
  | [] => []
  | (_, value) :: rest => specs value ++ entrySpecs rest

end

/-- The documents of properties in the document of a schema. -/
def schemaSpecs : Json → List Json
  | object members => members.flatMap fun member => member.2.setSpecs
  | _ => []

/-- The documents of properties in a value that is given for a field. -/
def specsAs (value : Json) : SpecField → List Json
  | .properties => value.setSpecs
  | .items => value.specs
  | _ => []

theorem elementSpecs_cons (value : Json) (rest : List Json) {position : Nat} {field : SpecField}
    (h : SpecField.all[position]? = some field) :
    elementSpecs (value :: rest) position =
      value.specsAs field ++ elementSpecs rest (position + 1) := by
  rw [elementSpecs, h]
  cases field <;> rfl

theorem memberSpecs_cons (value : Json) (rest : List (String × Json)) {name : String}
    {field : SpecField} (h : SpecField.ofName? name = some field) :
    memberSpecs ((name, value) :: rest) = value.specsAs field ++ memberSpecs rest := by
  rw [memberSpecs, h]
  cases field <;> rfl

theorem memberSpecs_cons_unknown (value : Json) (rest : List (String × Json)) {name : String}
    (h : SpecField.ofName? name = none) :
    memberSpecs ((name, value) :: rest) = memberSpecs rest := by
  rw [memberSpecs, h]
  rfl

theorem entrySpecs_eq (members : List (String × Json)) :
    entrySpecs members = members.flatMap fun member => member.2.specs := by
  induction members with
  | nil => rfl
  | cons member rest ih => rw [entrySpecs, ih, List.flatMap_cons]

end Json

/-! ## Rules of a property -/

namespace SpecField

/-- The fields that are rules, in the order in which they are reported. -/
def rules : List SpecField :=
  [minLength, isInteger, startsWith, properties, items]

instance decidableAppliesTo (typeName : String) : DecidablePred (AppliesTo typeName)
  | .minLength => inferInstanceAs (Decidable (_ ∨ _))
  | .isInteger => inferInstanceAs (Decidable (_ = _))
  | .startsWith => inferInstanceAs (Decidable (_ = _))
  | .properties => inferInstanceAs (Decidable (_ = _))
  | .items => inferInstanceAs (Decidable (_ = _))
  | .type => .isTrue trivial
  | .required => .isTrue trivial
  | .transform => .isTrue trivial

/-- Whether something is said by a field that may be null. -/
def isSaid : (field : SpecField) → field.Meaning → Bool
  | .minLength, length => length.isSome
  | .isInteger, flag => flag.isSome
  | .startsWith, start => start.isSome
  | .properties, set => set.isSome
  | .items, spec => spec.isSome
  | .type, _ => true
  | .required, _ => true
  | .transform, _ => true

end SpecField

namespace Json

/-- Whether a property's document gives a field, and not as null. -/
def gives (value : Json) (field : SpecField) : Bool :=
  match value.field? field with
  | none => false
  | some .null => false
  | some _ => true

/-- The warnings for the rules of a property's document that do not apply to its type. -/
def ignoredRules (value : Json) : List Event :=
  match value.field? .type with
  | some (.string typeName) =>
    (SpecField.rules.filter fun rule => value.gives rule ∧ ¬ rule.AppliesTo typeName).map
      fun rule => .ignoredRule rule.name typeName
  | _ => []

end Json

/-- A rule that is given, and not as null, says something. -/
theorem GivenDocument.isSaid_eq {value : Json} {field : SpecField} {meaning : field.Meaning}
    (h : GivenDocument field (value.field? field) meaning) (hrule : field ∈ SpecField.rules) :
    field.isSaid meaning = value.gives field := by
  rw [Json.gives]
  generalize value.field? field = given at h
  cases h with
  | leftOut hdefault =>
      cases field with
      | type | required | transform => simp [SpecField.rules] at hrule
      | _ =>
          cases hdefault
          rfl
  | given hdocument =>
      cases hdocument with
      | type _ | required _ | transform _ => simp [SpecField.rules] at hrule
      | properties hset =>
          cases hset
          rfl
      | items hspec => cases hspec <;> rfl
      | _ => rfl

theorem GivenDocument.type_eq {given : Option Json} {typeName : String}
    (h : GivenDocument .type given typeName) : given = some (.string typeName) := by
  cases h with
  | leftOut hdefault => cases hdefault
  | given hdocument =>
      cases hdocument
      rfl

/-- The rules that are misplaced are those that say something and do not apply. -/
theorem SpecFields.misplaced_eq (fields : SpecFields) :
    fields.misplaced = SpecField.rules.filter fun rule =>
      rule.isSaid (fields.get rule) && !decide (rule.AppliesTo fields.type) := by
  have hminLength : (fields.minLength.isSome && fields.type != "string" &&
      fields.type != "array") = (fields.minLength.isSome &&
        !decide (fields.type = "string" ∨ fields.type = "array")) := by
    rw [Bool.and_assoc, Bool.decide_or, Bool.not_or]
    rfl
  have hrules : SpecField.rules =
      [.minLength] ++ [.isInteger] ++ [.startsWith] ++ [.properties] ++ [.items] := rfl
  rw [misplaced, hminLength, hrules]
  simp only [List.filter_append, List.filter_singleton, Bool.cond_eq_ite]
  rfl

theorem Json.ignoredRules_eq {value : Json} {fields : SpecFields}
    (h : ∀ field, GivenDocument field (value.field? field) (fields.get field)) :
    value.ignoredRules =
      fields.misplaced.map fun rule => .ignoredRule rule.name fields.type := by
  have htype : value.field? .type = some (.string fields.type) := (h .type).type_eq
  rw [ignoredRules, htype, SpecFields.misplaced_eq]
  refine congrArg (List.map _) (List.filter_congr fun rule hrule => ?_)
  rw [(h rule).isSaid_eq hrule]
  simp

/-! ## Reports -/

namespace Logged

variable {ε α β : Type} {logged : Logged ε α} {events events' : List Event}

/-- Where the computation comes to a result, these are the events that it has reported. -/
def Reports (logged : Logged ε α) (events : List Event) : Prop :=
  ∀ x, logged.outcome = .ok x → logged.events = events

theorem reports_ok (x : α) : (ok x : Logged ε α).Reports [] :=
  fun _ _ => rfl

theorem reports_ofExcept (outcome : Except ε α) : (ofExcept outcome).Reports [] :=
  fun _ _ => rfl

theorem reports_of_fail (error : ε) : (fail error : Logged ε α).Reports events := by
  rintro _ ⟨⟩

theorem Reports.bind {next : α → Logged ε β} (h : logged.Reports events)
    (hnext : ∀ x, logged.outcome = .ok x → (next x).Reports events') :
    (logged.bind next).Reports (events ++ events') := by
  intro y hy
  rw [outcome_bind] at hy
  obtain ⟨x, hx, hy⟩ := Except.bind_eq_ok_iff.mp hy
  rw [Logged.bind, hx]
  dsimp only
  rw [h x hx, hnext x hx y hy]

/-- What comes behind a computation may be without events. -/
theorem Reports.bind_quiet {next : α → Logged ε β} (h : logged.Reports events)
    (hnext : ∀ x, (next x).Reports []) : (logged.bind next).Reports events := by
  rw [← List.append_nil events]
  exact h.bind fun x _ => hnext x

end Logged

open Logged

/-- The rules that are misplaced are reported with the type of the property. -/
theorem SpecFields.reports_toSpec (fields : SpecFields) :
    fields.toSpec.Reports
      (fields.misplaced.map fun rule => .ignoredRule rule.name fields.type) := by
  refine Reports.bind_quiet (fun _ _ => rfl) fun _ => ?_
  exact (reports_ofExcept fields.propertyType).bind_quiet fun _ => reports_ok _

namespace Json

/-- A value that is read as a property, or as a set of properties, is reported by what is ignored
in it. -/
structure ReportsIgnored (value : Json) : Prop where
  spec : value.propertySpec.Reports (value.specs.flatMap ignoredRules)
  set : value.propertySet.Reports (value.setSpecs.flatMap ignoredRules)

theorem reports_orNull {α : Type} {value : Json} {events : List Event}
    (read : Unit → Logged ContentError α) (h : (read ()).Reports events)
    (hnull : value = .null → events = []) : (value.asField.orNull read).Reports events := by
  have hread : ((read ()).bind fun x => ok (some x)).Reports events :=
    h.bind_quiet fun _ => reports_ok _
  cases value with
  | null => exact hnull rfl ▸ reports_ofExcept _
  | _ => exact hread

theorem ReportsIgnored.role {value : Json} (h : value.ReportsIgnored) (field : SpecField) :
    (value.asField.role field).Reports ((value.specsAs field).flatMap ignoredRules) := by
  cases field with
  | type | required | transform => exact reports_ofExcept _
  | minLength | isInteger | startsWith =>
      exact reports_orNull _ (reports_ofExcept _) fun _ => rfl
  | properties => exact reports_orNull _ h.set fun hnull => hnull ▸ rfl
  | items => exact reports_orNull _ h.spec fun hnull => hnull ▸ rfl

theorem ReportsIgnored.read {value : Json} (h : value.ReportsIgnored) (draft : SpecDraft)
    (field : SpecField) :
    (draft.read value.asField field).Reports ((value.specsAs field).flatMap ignoredRules) := by
  rw [SpecDraft.read_eq]
  exact (h.role field).bind_quiet fun _ => reports_ok _

theorem reports_fieldMembers {members : List (String × Json)}
    (hmembers : ∀ name value, (name, value) ∈ members → value.ReportsIgnored)
    (draft : SpecDraft) :
    (fieldMembers members draft).Reports ((memberSpecs members).flatMap ignoredRules) := by
  induction members generalizing draft with
  | nil =>
      rw [fieldMembers]
      exact reports_ofExcept _
  | cons member rest ih =>
      obtain ⟨name, value⟩ := member
      have hrest := ih fun name value hmem => hmembers name value (List.mem_cons_of_mem _ hmem)
      rw [fieldMembers]
      cases hname : SpecField.ofName? name with
      | none =>
          rw [memberSpecs_cons_unknown value rest hname]
          exact hrest draft
      | some field =>
          rw [memberSpecs_cons value rest hname, List.flatMap_append]
          dsimp only
          split
          · exact reports_of_fail _
          · have hread := (hmembers name value List.mem_cons_self).read draft field
            exact hread.bind fun draft _ => hrest draft

theorem reports_fieldElements (length : Nat) {elements : List Json}
    (helements : ∀ value ∈ elements, value.ReportsIgnored) (position : Nat) (draft : SpecDraft) :
    (fieldElements length elements position draft).Reports
      ((elementSpecs elements position).flatMap ignoredRules) := by
  induction elements generalizing position draft with
  | nil =>
      rw [fieldElements]
      split <;> exact reports_ofExcept _
  | cons value rest ih =>
      have hrest := ih fun value hmem => helements value (List.mem_cons_of_mem _ hmem)
      rw [fieldElements]
      cases hfield : SpecField.all[position]? with
      | none => exact reports_of_fail _
      | some field =>
          rw [elementSpecs_cons value rest hfield, List.flatMap_append]
          have hread := (helements value List.mem_cons_self).read draft field
          exact hread.bind fun draft _ => hrest (position + 1) draft

theorem reports_readEntries {α : Type} {kind : EntryKind} {decode : Json → Logged ContentError α}
    {part : Json → List Json} {members : List (String × Json)}
    (hmembers : ∀ name value, (name, value) ∈ members →
      (decode value).Reports ((part value).flatMap ignoredRules)) (front : Entries α) :
    (readEntries kind decode members front).Reports
      ((members.flatMap fun member => part member.2).flatMap ignoredRules) := by
  induction members generalizing front with
  | nil => exact reports_ok front
  | cons member rest ih =>
      obtain ⟨name, value⟩ := member
      have hrest := ih fun name value hmem => hmembers name value (List.mem_cons_of_mem _ hmem)
      rw [readEntries, List.flatMap_cons, List.flatMap_append]
      split
      · exact reports_of_fail _
      · exact (hmembers name value List.mem_cons_self).bind fun x _ => hrest _

theorem reports_object {members : List (String × Json)}
    (hmembers : ∀ name value, (name, value) ∈ members → value.ReportsIgnored) :
    (object members).ReportsIgnored := by
  constructor
  · rw [propertySpec, specs, List.flatMap_append, List.flatMap_singleton]
    refine (reports_fieldMembers hmembers .empty).bind fun fields hfields => ?_
    have hsettles := ((fieldMembers_eq_ok_iff fun _ value _ => readsDocuments value).mp hfields).2
    have hgiven (field : SpecField) : GivenDocument field ((object members).field? field)
        (fields.get field) := SpecDraft.settles_empty_iff.mp (hsettles field)
    rw [ignoredRules_eq hgiven]
    exact fields.reports_toSpec
  · rw [propertySet, setSpecs, propertyMembers_eq, entrySpecs_eq]
    exact reports_readEntries (fun name value hmem => (hmembers name value hmem).spec) []

theorem reports_array {elements : List Json}
    (helements : ∀ value ∈ elements, value.ReportsIgnored) :
    (array elements).ReportsIgnored := by
  refine ⟨?_, reports_of_fail _⟩
  rw [propertySpec, specs, List.flatMap_append, List.flatMap_singleton]
  refine (reports_fieldElements _ helements 0 .empty).bind fun fields hfields => ?_
  have hsettles := ((fieldElements_eq_ok_iff (fun value _ => readsDocuments value)
    (Nat.zero_le 8)).mp hfields).2
  have hgiven (field : SpecField) : GivenDocument field ((array elements).field? field)
      (fields.get field) := by
    have helement : elementOf elements 0 field = elements[field.position]? :=
      if_pos (Nat.zero_le _)
    rw [field?, ← helement]
    exact SpecDraft.settles_empty_iff.mp (hsettles field)
  rw [ignoredRules_eq hgiven]
  exact fields.reports_toSpec

theorem reportsIgnored (value : Json) : value.ReportsIgnored := by
  induction value using of_parts with
  | null | boolean _ | number _ | string _ => exact ⟨reports_of_fail _, reports_of_fail _⟩
  | array elements ih => exact reports_array ih
  | object members ih => exact reports_object ih

theorem reports_schema (value : Json) :
    value.schema.Reports (value.schemaSpecs.flatMap ignoredRules) := by
  cases value with
  | object members =>
      rw [schema, schemaSpecs, typeMembers_eq]
      refine (reports_readEntries (fun _ value _ => (reportsIgnored value).set)
        []).bind_quiet fun types => ?_
      split
      · exact reports_of_fail _
      · exact reports_ok _
  | _ => exact reports_of_fail _

end Json

namespace Schema

/-- While a schema is read from a value, the rules that are ignored are reported, one by one, and
nothing else. -/
theorem events_ofValue {value : Json} {schema : Schema}
    (h : (ofValue value).outcome = .ok schema) :
    (ofValue value).events = value.schemaSpecs.flatMap Json.ignoredRules :=
  value.reports_schema schema (Except.mapError_eq_ok_iff.mp h)

/-- The same while it is read from a text. -/
theorem events_ofText {text : String} {schema : Schema} (h : (ofText text).outcome = .ok schema) :
    (ofText text).events =
      (Document.ofText text).written.schemaSpecs.flatMap Json.ignoredRules := by
  have hvalue := ofText_matchedBy text schema h
  have hevents := events_ofValue (congrArg Logged.outcome hvalue)
  rwa [hvalue] at hevents

end Schema

end RecordSchema
