import Mathlib.Data.List.Induction
import RecordSchema.Proofs.Document.Accept
import RecordSchema.Proofs.Document.Routes
import RecordSchema.Schema.Workbench

/-!
# Properties that are built and properties that are read

A `Blueprint` is a property as it is built: a base, whose parts are blueprints again, and the
changes that are made to it one by one. A document carries the blueprint if it has its type, the
last value of each rule and all the transforms, also where a change does nothing for the type.

The changes are followed in two ways, on the property and on the fields of a document. One step
keeps what the fields describe, so that all the changes do; and the fields that come of them are
those of the document.

Main statement: `Blueprint.build_eq_read`, by which building a blueprint and reading a document
of it give the same property.
-/

namespace RecordSchema

mutual

/-- A property as it is built: what it starts from and the changes to it, in order. -/
structure Blueprint where
  base : BlueprintBase
  changes : List SpecChange

/-- What a property starts from. -/
inductive BlueprintBase where
  | string
  | number
  | boolean
  | object (properties : List (String × Blueprint))
  | array (items : Blueprint)
  | named (target : String)

end

/-! ## Building -/

mutual

/-- The property that is built. -/
def Blueprint.build : Blueprint → Except SchemaError PropertySpec
  | ⟨base, changes⟩ => do
    let spec ← base.build
    return changes.foldl SpecChange.apply spec

def BlueprintBase.build : BlueprintBase → Except SchemaError PropertySpec
  | .string => .ok .string
  | .number => .ok .number
  | .boolean => .ok .boolean
  | .object properties => do
    let set ← Blueprint.insertAll properties []
    return .object set
  | .array items => do
    let spec ← items.build
    return .array spec
  | .named target => .ok (.named target)

/-- Adds the properties to a set, one behind the other. -/
def Blueprint.insertAll :
    List (String × Blueprint) → PropertySet → Except SchemaError PropertySet
  | [], set => .ok set
  | (name, blueprint) :: rest, set => do
    let spec ← blueprint.build
    let extended ← PropertySet.insert set name spec
    Blueprint.insertAll rest extended

end

mutual

/-- At every depth the properties of an object have names of their own, and a name of a type is
neither empty nor that of another base. -/
def Blueprint.Valid : Blueprint → Prop
  | ⟨base, _⟩ => base.Valid

def BlueprintBase.Valid : BlueprintBase → Prop
  | .object properties => (properties.map Prod.fst).Nodup ∧ Blueprint.AllValid properties
  | .array items => items.Valid
  | .named target => target ∉ ["", "string", "number", "boolean", "object", "array"]
  | _ => True

def Blueprint.AllValid : List (String × Blueprint) → Prop
  | [] => True
  | (_, blueprint) :: rest => blueprint.Valid ∧ Blueprint.AllValid rest

end

/-! ## What the changes say -/

namespace SpecChange

def minLength? : SpecChange → Option UInt64
  | minLength length => some length
  | _ => none

def start? : SpecChange → Option String
  | startsWith start => some start
  | _ => none

def transform? : SpecChange → Option Transform
  | transform t => some t
  | _ => none

def isOptional : SpecChange → Bool
  | optional => true
  | _ => false

def asksWhole : SpecChange → Bool
  | isInteger => true
  | _ => false

end SpecChange

namespace SpecFields

/-- The fields of a document that says what the changes say: each rule as it was given last, and
the transforms in their order. -/
def ofChanges (type : String) (properties : Option PropertySet) (items : Option PropertySpec)
    (changes : List SpecChange) : SpecFields where
  type := type
  required := !changes.any SpecChange.isOptional
  minLength := (changes.filterMap SpecChange.minLength?).getLast?
  isInteger := if changes.any SpecChange.asksWhole then some true else none
  startsWith := (changes.filterMap SpecChange.start?).getLast?
  properties := properties
  items := items
  transforms := changes.filterMap SpecChange.transform?

/-- The fields after a change. -/
def change (fields : SpecFields) : SpecChange → SpecFields
  | .optional => { fields with required := false }
  | .minLength length => { fields with minLength := some length }
  | .startsWith start => { fields with startsWith := some start }
  | .isInteger => { fields with isInteger := some true }
  | .transform t => { fields with transforms := fields.transforms ++ [t] }

variable {type : String} {properties : Option PropertySet} {items : Option PropertySpec}

theorem ofChanges_append (changes : List SpecChange) (change : SpecChange) :
    ofChanges type properties items (changes ++ [change]) =
      (ofChanges type properties items changes).change change := by
  cases change <;>
    simp [ofChanges, SpecFields.change, SpecChange.isOptional, SpecChange.minLength?,
      SpecChange.asksWhole, SpecChange.start?, SpecChange.transform?]

variable {fields : SpecFields} {spec : PropertySpec}

/-- A change of a property is the change of its fields. A rule that the type does not have is
dropped on both sides. -/
theorem HasType.change (h : fields.HasType spec.type) (change : SpecChange) :
    (fields.change change).HasType (change.apply spec).type := by
  obtain ⟨type, required, transforms⟩ := spec
  cases h with
  | string htype => cases change <;> exact .string htype
  | number htype => cases change <;> exact .number htype
  | boolean htype => cases change <;> exact .boolean htype
  | object htype hproperties => cases change <;> exact .object htype hproperties
  | array htype hitems => cases change <;> exact .array htype hitems
  | named htype => cases change <;> exact .named htype

theorem Describes.change (h : fields.Describes spec) (change : SpecChange) :
    (fields.change change).Describes (change.apply spec) := by
  refine ⟨h.hasType.change change, ?_, ?_⟩
  · have hrequired := h.required
    obtain ⟨type, required, transforms⟩ := spec
    cases change with
    | optional => rfl
    | transform t => exact hrequired
    | _ => cases type <;> exact hrequired
  · have htransforms := h.transforms
    obtain ⟨type, required, transforms⟩ := spec
    cases change with
    | optional => exact htransforms
    | transform t => exact congrArg (· ++ [t]) htransforms
    | _ => cases type <;> exact htransforms

/-- All the changes come to the fields of the document. -/
theorem Describes.foldl (h : (ofChanges type properties items []).Describes spec)
    (changes : List SpecChange) :
    (ofChanges type properties items changes).Describes
      (changes.foldl SpecChange.apply spec) := by
  induction changes using List.reverseRecOn with
  | nil => exact h
  | append_singleton changes change ih =>
      rw [ofChanges_append, List.foldl_append]
      exact ih.change change

end SpecFields

/-! ## Documents -/

/-- The name of the type. -/
def BlueprintBase.typeName : BlueprintBase → String
  | .string => "string"
  | .number => "number"
  | .boolean => "boolean"
  | .object _ => "object"
  | .array _ => "array"
  | .named target => target

mutual

/-- The value is a document that carries the blueprint: an object whose members say, in any order
and besides others, what the blueprint says. -/
inductive Blueprint.Carried : Blueprint → Json → Prop
  | object {base : BlueprintBase} {changes : List SpecChange} {members : Entries Json} :
      members.names.Nodup →
      (∀ field : SpecField, field ≠ .properties → field ≠ .items →
        GivenDocument field (Entries.get? members field.name)
          ((SpecFields.ofChanges base.typeName none none changes).get field)) →
      BlueprintBase.Carried base (Entries.get? members SpecField.properties.name)
        (Entries.get? members SpecField.items.name) →
      Blueprint.Carried ⟨base, changes⟩ (.object members)

/-- The parts of a base are under `properties` and `items`. -/
inductive BlueprintBase.Carried : BlueprintBase → Option Json → Option Json → Prop
  | string : BlueprintBase.Carried .string none none
  | number : BlueprintBase.Carried .number none none
  | boolean : BlueprintBase.Carried .boolean none none
  | object {properties : List (String × Blueprint)} {members : Entries Json} :
      Blueprint.AllCarried properties members →
        BlueprintBase.Carried (.object properties) (some (.object members)) none
  | array {items : Blueprint} {value : Json} : Blueprint.Carried items value →
      BlueprintBase.Carried (.array items) none (some value)
  | named (target : String) : BlueprintBase.Carried (.named target) none none

/-- The members are documents of the properties, under their names and in their order. -/
inductive Blueprint.AllCarried : List (String × Blueprint) → Entries Json → Prop
  | nil : Blueprint.AllCarried [] []
  | cons {name : String} {blueprint : Blueprint} {value : Json}
      {rest : List (String × Blueprint)} {members : Entries Json} :
      Blueprint.Carried blueprint value → Blueprint.AllCarried rest members →
        Blueprint.AllCarried ((name, blueprint) :: rest) ((name, value) :: members)

end

theorem Blueprint.AllCarried.names_eq {properties : List (String × Blueprint)}
    {members : Entries Json} (h : AllCarried properties members) :
    members.names = properties.map Prod.fst := by
  induction properties generalizing members with
  | nil =>
      cases h
      rfl
  | cons entry rest ih =>
      cases h with
      | cons _ hrest => rw [Entries.names_cons, List.map_cons, ih hrest]

/-! ## Building is reading -/

/-- A document that says what the changes say describes the property that they make. -/
theorem Blueprint.Carried.specDocument {base : BlueprintBase} {changes : List SpecChange}
    {value : Json} (h : Blueprint.Carried ⟨base, changes⟩ value)
    {properties : Option PropertySet} {items : Option PropertySpec} {spec : PropertySpec}
    (hdescribes : (SpecFields.ofChanges base.typeName properties items []).Describes spec)
    (hparts : ∀ under under', base.Carried under under' →
      GivenDocument .properties under properties ∧ GivenDocument .items under' items) :
    SpecDocument value (changes.foldl SpecChange.apply spec) := by
  cases h with
  | object hnames hfields hcarried =>
      obtain ⟨hproperties, hitems⟩ := hparts _ _ hcarried
      refine .object (hnames.filter _) (fun field => ?_) (hdescribes.foldl changes)
      cases field with
      | properties => exact hproperties
      | items => exact hitems
      | type => exact hfields .type (by decide) (by decide)
      | required => exact hfields .required (by decide) (by decide)
      | minLength => exact hfields .minLength (by decide) (by decide)
      | isInteger => exact hfields .isInteger (by decide) (by decide)
      | startsWith => exact hfields .startsWith (by decide) (by decide)
      | transform => exact hfields .transform (by decide) (by decide)

mutual

/-- A valid blueprint can be built, and its documents are documents of the result. -/
theorem Blueprint.exists_build : ∀ blueprint : Blueprint, blueprint.Valid →
    ∃ spec, blueprint.build = .ok spec ∧
      ∀ value, blueprint.Carried value → SpecDocument value spec
  | ⟨base, changes⟩, h => by
      rw [Blueprint.Valid] at h
      obtain ⟨spec, properties, items, hbuild, hdescribes, hparts⟩ :=
        BlueprintBase.exists_build base h
      refine ⟨changes.foldl SpecChange.apply spec, ?_, fun value hvalue =>
        hvalue.specDocument hdescribes hparts⟩
      rw [Blueprint.build, hbuild]
      rfl

theorem BlueprintBase.exists_build : ∀ base : BlueprintBase, base.Valid →
    ∃ spec properties items, base.build = .ok spec ∧
      (SpecFields.ofChanges base.typeName properties items []).Describes spec ∧
      ∀ under under', base.Carried under under' →
        GivenDocument .properties under properties ∧ GivenDocument .items under' items
  | .string, _ => by
      refine ⟨.string, none, none, rfl, ⟨.string rfl, rfl, rfl⟩, ?_⟩
      rintro _ _ ⟨⟩
      exact ⟨.leftOut rfl, .leftOut rfl⟩
  | .number, _ => by
      refine ⟨.number, none, none, rfl, ⟨.number rfl, rfl, rfl⟩, ?_⟩
      rintro _ _ ⟨⟩
      exact ⟨.leftOut rfl, .leftOut rfl⟩
  | .boolean, _ => by
      refine ⟨.boolean, none, none, rfl, ⟨.boolean rfl, rfl, rfl⟩, ?_⟩
      rintro _ _ ⟨⟩
      exact ⟨.leftOut rfl, .leftOut rfl⟩
  | .named target, h => by
      rw [BlueprintBase.Valid] at h
      refine ⟨.named target, none, none, rfl, ⟨.named h, rfl, rfl⟩, ?_⟩
      rintro _ _ ⟨⟩
      exact ⟨.leftOut rfl, .leftOut rfl⟩
  | .object properties, h => by
      rw [BlueprintBase.Valid] at h
      obtain ⟨set, hinsert, hset⟩ :=
        Blueprint.exists_insertAll properties h.2 [] (by simpa using h.1)
      refine ⟨.object set, some set, none, ?_, ⟨.object rfl rfl, rfl, rfl⟩, ?_⟩
      · rw [BlueprintBase.build, hinsert]
        rfl
      · rintro _ _ (_ | _ | _ | hmembers | _ | _)
        refine ⟨.given (.properties (.object ?_ (hset _ hmembers))), .leftOut rfl⟩
        rw [hmembers.names_eq]
        exact h.1
  | .array items, h => by
      rw [BlueprintBase.Valid] at h
      obtain ⟨spec, hbuild, hspec⟩ := Blueprint.exists_build items h
      refine ⟨.array spec, none, some spec, ?_, ⟨.array rfl rfl, rfl, rfl⟩, ?_⟩
      · rw [BlueprintBase.build, hbuild]
        rfl
      · rintro _ _ (_ | _ | _ | _ | hvalue | _)
        exact ⟨.leftOut rfl, .given (.items (hspec _ hvalue))⟩

theorem Blueprint.exists_insertAll : ∀ properties : List (String × Blueprint),
    Blueprint.AllValid properties → ∀ front : PropertySet,
      (front.names ++ properties.map Prod.fst).Nodup →
        ∃ set, Blueprint.insertAll properties front = .ok (front ++ set) ∧
          ∀ members, Blueprint.AllCarried properties members →
            EntriesDocument SpecDocument members set
  | [], _, front, _ => by
      refine ⟨[], by rw [Blueprint.insertAll, List.append_nil], ?_⟩
      rintro _ ⟨⟩
      exact .nil
  | (name, blueprint) :: rest, h, front, hnames => by
      rw [Blueprint.AllValid] at h
      rw [List.map_cons] at hnames
      obtain ⟨spec, hbuild, hspec⟩ := Blueprint.exists_build blueprint h.1
      have hfresh : ¬ Entries.has front name = true := by
        rw [Entries.has_iff_mem_names]
        exact fun hmem => (List.nodup_append.mp hnames).2.2 name hmem name List.mem_cons_self rfl
      have hinsert : PropertySet.insert front name spec = .ok (front ++ [(name, spec)]) :=
        if_neg hfresh
      have hextended : (Entries.names (front ++ [(name, spec)]) ++ rest.map Prod.fst).Nodup := by
        rwa [Entries.names_append, List.append_assoc]
      obtain ⟨set, hset, hdocuments⟩ := Blueprint.exists_insertAll rest h.2 _ hextended
      refine ⟨(name, spec) :: set, ?_, ?_⟩
      · rw [List.append_assoc] at hset
        rw [Blueprint.insertAll]
        exact Except.bind_eq_ok_iff.mpr ⟨spec, hbuild,
          Except.bind_eq_ok_iff.mpr ⟨_, hinsert, hset⟩⟩
      · rintro _ (_ | ⟨hvalue, hmembers⟩)
        exact .cons (hspec _ hvalue) (hdocuments _ hmembers)

end

/-! ## The shortest document -/

namespace SpecField

/-- The members of an object for the fields that have a value. -/
def members (value : SpecField → Option Json) (fields : List SpecField) : Entries Json :=
  fields.filterMap fun field => (value field).map (field.name, ·)

variable {value : SpecField → Option Json}

theorem members_cons (field : SpecField) (rest : List SpecField) :
    members value (field :: rest) =
      ((value field).map (field.name, ·)).toList ++ members value rest := by
  rw [members, List.filterMap_cons]
  cases value field <;> rfl

theorem names_members_sublist (fields : List SpecField) :
    (members value fields).names.Sublist (fields.map name) := by
  induction fields with
  | nil => exact .slnil
  | cons field rest ih =>
      rw [members_cons]
      cases value field with
      | none => exact ih.cons _
      | some _ => exact ih.cons_cons _

theorem get?_members {fields : List SpecField} (hnodup : fields.Nodup) {field : SpecField}
    (hmem : field ∈ fields) : (members value fields).get? field.name = value field := by
  induction fields with
  | nil => cases hmem
  | cons first rest ih =>
      rw [List.nodup_cons] at hnodup
      rw [members_cons, Entries.get?_append]
      rcases List.mem_cons.mp hmem with rfl | hrest
      · have hnone : (members value rest).get? field.name = none := by
          rw [Entries.get?_eq_none_iff]
          intro hname
          obtain ⟨other, hother, heq⟩ :=
            List.mem_map.mp ((names_members_sublist rest).subset hname)
          exact hnodup.1 (name_injective heq ▸ hother)
        rw [hnone]
        cases value field with
        | none => rfl
        | some _ => simp [Entries.get?_cons]
      · rw [ih hnodup.2 hrest]
        have hne : first.name ≠ field.name := fun heq =>
          hnodup.1 (name_injective heq ▸ hrest)
        cases value first with
        | none => rfl
        | some _ => simp [Entries.get?_cons, hne]

end SpecField

/-- A length in a document. -/
def Json.ofLength (length : UInt64) : Json :=
  .number (.integer ⟨length.toNat, by omega, by have := length.toNat_lt; omega⟩)

/-- What stands under each field in a document that says no more than the changes do. -/
def SpecChange.valueUnder? (type : String) (properties items : Option Json)
    (changes : List SpecChange) : SpecField → Option Json
  | .type => some (.string type)
  | .required => if changes.any isOptional then some (.boolean false) else none
  | .minLength => (changes.filterMap minLength?).getLast?.map Json.ofLength
  | .isInteger => if changes.any asksWhole then some (.boolean true) else none
  | .startsWith => (changes.filterMap start?).getLast?.map Json.string
  | .properties => properties
  | .items => items
  | .transform =>
    if (changes.filterMap transform?).isEmpty then none
    else some (.array ((changes.filterMap transform?).map (.string ·.name)))

mutual

/-- The document that says what the blueprint says and nothing else. -/
def Blueprint.document : Blueprint → Json
  | ⟨base, changes⟩ =>
    .object (SpecField.members
      (SpecChange.valueUnder? base.typeName base.propertiesDocument? base.itemsDocument? changes)
      SpecField.all)

def BlueprintBase.propertiesDocument? : BlueprintBase → Option Json
  | .object properties => some (.object (Blueprint.documents properties))
  | _ => none

def BlueprintBase.itemsDocument? : BlueprintBase → Option Json
  | .array items => some items.document
  | _ => none

def Blueprint.documents : List (String × Blueprint) → Entries Json
  | [] => []
  | (name, blueprint) :: rest => (name, blueprint.document) :: Blueprint.documents rest

end

theorem forall₂_transformDocument (transforms : List Transform) :
    List.Forall₂ TransformDocument (transforms.map (.string ·.name)) transforms := by
  induction transforms with
  | nil => exact .nil
  | cons transform rest ih => exact .cons (.name transform) ih

/-- What stands under a field says what the changes say. -/
theorem givenDocument_valueUnder? (type : String) (properties items : Option Json)
    (changes : List SpecChange) {field : SpecField} (hproperties : field ≠ .properties)
    (hitems : field ≠ .items) :
    GivenDocument field (SpecChange.valueUnder? type properties items changes field)
      ((SpecFields.ofChanges type none none changes).get field) := by
  cases field with
  | type => exact .given (.type type)
  | required =>
      rw [SpecChange.valueUnder?, SpecFields.get, SpecFields.ofChanges]
      cases changes.any SpecChange.isOptional with
      | true => exact .given (.required false)
      | false => exact .leftOut rfl
  | minLength =>
      rw [SpecChange.valueUnder?, SpecFields.get, SpecFields.ofChanges]
      cases (changes.filterMap SpecChange.minLength?).getLast? with
      | some length => exact .given (.minLength rfl)
      | none => exact .leftOut rfl
  | isInteger =>
      rw [SpecChange.valueUnder?, SpecFields.get, SpecFields.ofChanges]
      cases changes.any SpecChange.asksWhole with
      | true => exact .given (.isInteger true)
      | false => exact .leftOut rfl
  | startsWith =>
      rw [SpecChange.valueUnder?, SpecFields.get, SpecFields.ofChanges]
      cases (changes.filterMap SpecChange.start?).getLast? with
      | some start => exact .given (.startsWith start)
      | none => exact .leftOut rfl
  | transform =>
      rw [SpecChange.valueUnder?, SpecFields.get, SpecFields.ofChanges]
      cases changes.filterMap SpecChange.transform? with
      | nil => exact .leftOut rfl
      | cons transform rest =>
          exact .given (.transform (forall₂_transformDocument (transform :: rest)))
  | properties => exact absurd rfl hproperties
  | items => exact absurd rfl hitems

mutual

theorem Blueprint.carried_document : ∀ blueprint : Blueprint,
    blueprint.Carried blueprint.document
  | ⟨base, changes⟩ => by
      have hget (value : SpecField → Option Json) (field : SpecField) :
          (SpecField.members value SpecField.all).get? field.name = value field :=
        SpecField.get?_members (by decide) (by cases field <;> decide)
      rw [Blueprint.document]
      constructor
      · exact (SpecField.names_members_sublist _).nodup (by decide)
      · intro field hproperties hitems
        rw [hget]
        exact givenDocument_valueUnder? _ _ _ changes hproperties hitems
      · rw [hget, hget]
        exact BlueprintBase.carried_document base

theorem BlueprintBase.carried_document : ∀ base : BlueprintBase,
    base.Carried base.propertiesDocument? base.itemsDocument?
  | .string => .string
  | .number => .number
  | .boolean => .boolean
  | .named target => .named target
  | .object properties => .object (Blueprint.carried_documents properties)
  | .array items => .array (Blueprint.carried_document items)

theorem Blueprint.carried_documents : ∀ properties : List (String × Blueprint),
    Blueprint.AllCarried properties (Blueprint.documents properties)
  | [] => .nil
  | (_, blueprint) :: rest =>
      .cons (Blueprint.carried_document blueprint) (Blueprint.carried_documents rest)

end

/-- Builders and documents agree. A blueprint whose properties have names of their own, and whose
types have names that are free, can be built, and what is built is what is read from every
document that carries it, in memory or as a text that repeats no name. The document that says
nothing else is among them. -/
theorem Blueprint.build_eq_read {blueprint : Blueprint} (h : blueprint.Valid) :
    ∃ spec, blueprint.build = .ok spec ∧
      blueprint.Carried blueprint.document ∧ blueprint.document.propertySpec.outcome = .ok spec ∧
      (∀ value, blueprint.Carried value → value.propertySpec.outcome = .ok spec) ∧
      ∀ text value, readRecord text = .ok value → blueprint.Carried value →
        (Document.ofText text).root.KeysDistinct →
          (PropertySpec.ofText text).outcome = .ok spec := by
  obtain ⟨spec, hbuild, hdocuments⟩ := blueprint.exists_build h
  have hread (value : Json) (hvalue : blueprint.Carried value) :
      value.propertySpec.outcome = .ok spec :=
    (value.readsDocuments.spec spec).mpr (hdocuments value hvalue)
  refine ⟨spec, hbuild, blueprint.carried_document, hread _ blueprint.carried_document, hread, ?_⟩
  intro text value hrecord hvalue hdistinct
  obtain ⟨hjson, hcheck⟩ := json_of_readRecord hrecord
  have hagrees := (Tree.agrees (Document.ofText_passable text) hjson).spec
  have htree := (hagrees spec).mpr ⟨hread value hvalue, hdistinct.declaresOnce .spec⟩
  rw [PropertySpec.ofText, outcome_decodeText hcheck, htree]
  rfl

/-- A contact with a name and some numbers. Some of the changes are overruled by later ones, and
some do nothing for the type. -/
def contactBlueprint : Blueprint :=
  ⟨.object
    [("name", ⟨.string, [.minLength 1, .transform .trim, .isInteger, .minLength 3]⟩),
      ("numbers", ⟨.array ⟨.number, [.startsWith "0", .isInteger]⟩, [.optional, .minLength 2]⟩),
      ("owner", ⟨.named "User", [.minLength 4, .transform .trim, .transform .lowercase]⟩)],
    [.minLength 5]⟩

/-- A Boolean with a rule of strings, and a document of it with the fields in another order. -/
def flagText : String :=
  "\x7b\"startsWith\":\"a\",\"type\":\"boolean\"\x7d"

theorem readRecord_flagText :
    readRecord flagText =
      .ok (.object [("startsWith", .string "a"), ("type", .string "boolean")]) := by
  obtain ⟨value, hvalue⟩ := Except.exists_eq_ok (readRecord flagText) (by decide +kernel)
  have hrows : ((readRecord flagText).toOption.bind Json.members?).map
      (List.map fun member => (member.1, member.2.asString.toOption)) =
        some [("startsWith", some "a"), ("type", some "boolean")] := by
    decide +kernel
  rw [hvalue] at hrows ⊢
  cases value with
  | object members =>
      obtain ⟨_, heq, hmap⟩ := Option.map_eq_some_iff.mp hrows
      cases heq
      obtain ⟨⟨_, start⟩, rest, rfl, hstart, hrest⟩ := List.map_eq_cons_iff.mp hmap
      obtain ⟨⟨_, type⟩, rest, rfl, htype, hnil⟩ := List.map_eq_cons_iff.mp hrest
      cases List.map_eq_nil_iff.mp hnil
      cases start <;> cases hstart
      cases type <;> cases htype
      rfl
  | _ => cases hrows

theorem Blueprint.build_eq_read_contact :
    contactBlueprint.Valid ∧
      contactBlueprint.document.propertySpec.outcome =
        .ok ⟨.object
          [("name", ⟨.string (some 3) none, true, [.trim]⟩),
            ("numbers", ⟨.array (some 2) ⟨.number true, true, []⟩, false, []⟩),
            ("owner", ⟨.named "User", true, [.trim, .lowercase]⟩)], true, []⟩ ∧
      (PropertySpec.ofText flagText).outcome = .ok PropertySpec.boolean := by
  have hvalid : contactBlueprint.Valid := by
    simp [contactBlueprint, Valid, BlueprintBase.Valid, AllValid]
  have hcarried : Carried ⟨.boolean, [.startsWith "a"]⟩
      (.object [("startsWith", .string "a"), ("type", .string "boolean")]) := by
    refine .object (by decide) (fun field hproperties hitems => ?_) .boolean
    cases field with
    | type => exact .given (.type "boolean")
    | startsWith => exact .given (.startsWith "a")
    | properties => exact absurd rfl hproperties
    | items => exact absurd rfl hitems
    | _ => exact .leftOut rfl
  obtain ⟨spec, hbuild, -, hread, -⟩ := build_eq_read hvalid
  cases hbuild
  obtain ⟨spec, hbuild, -, -, -, htext⟩ :=
    build_eq_read (show Valid ⟨.boolean, [.startsWith "a"]⟩ from trivial)
  cases hbuild
  exact ⟨hvalid, hread, htext flagText _ readRecord_flagText hcarried (by decide +kernel)⟩

end RecordSchema
