import RecordSchema.Proofs.Reference

/-!
# Where types are referred to

`PropertySet.tree` lists the specs of a property tree in depth and in the order of their
declaration. Each comes with its path, which is a list of steps and not a text: the keys and
array levels on the way to it, whatever the keys are. `Schema.occurrences` are the references
of a schema, read off from this list type by type.

Paths have two texts. `PropertyPath.text` writes a step behind the other, a key behind a
point and an array level as a pair of brackets; plans are compiled under these texts.
`PropertyPath.reported` is the text under which a reference is listed by
`PropertySet.references`.
-/

namespace RecordSchema

/-- A step from an object to one of its properties, or from an array to its items. -/
inductive PropertyStep where
  | key (name : String)
  | items
  deriving DecidableEq

/-- The way from a type to a spec of its property tree. -/
abbrev PropertyPath := List PropertyStep

namespace PropertyPath

/-- The path as a text behind the text of what it starts from. -/
def text (front : String) (path : PropertyPath) : String :=
  path.foldl (fun text step =>
    match step with
    | .key name => text ++ "." ++ name
    | .items => text ++ "[]") front

/-- The path as a text on its own. -/
def reportedFrom (front : String) (path : PropertyPath) : String :=
  path.foldl (fun text step =>
    match step with
    | .key name => if text = "" then name else text ++ "." ++ name
    | .items => text ++ "[]") front

/-- The path under which a reference is listed. -/
def reported (path : PropertyPath) : String :=
  reportedFrom "" path

variable (front : String) (path : PropertyPath) (name : String)

@[simp] theorem text_nil : text front [] = front := rfl

@[simp] theorem text_cons_key :
    text front (.key name :: path) = text (front ++ "." ++ name) path := rfl

@[simp] theorem text_cons_items : text front (.items :: path) = text (front ++ "[]") path := rfl

theorem text_append_key :
    text front (path ++ [.key name]) = text front path ++ "." ++ name := by
  rw [text, List.foldl_append]
  rfl

theorem text_append_items : text front (path ++ [.items]) = text front path ++ "[]" := by
  rw [text, List.foldl_append]
  rfl

@[simp] theorem reportedFrom_nil : reportedFrom front [] = front := rfl

@[simp] theorem reportedFrom_cons_key :
    reportedFrom front (.key name :: path) =
      reportedFrom (if front = "" then name else front ++ "." ++ name) path := rfl

@[simp] theorem reportedFrom_cons_items :
    reportedFrom front (.items :: path) = reportedFrom (front ++ "[]") path := rfl

theorem reported_append_key :
    reported (path ++ [.key name]) =
      if reported path = "" then name else reported path ++ "." ++ name := by
  rw [reported, reportedFrom, List.foldl_append]
  rfl

theorem reported_append_items : reported (path ++ [.items]) = reported path ++ "[]" := by
  rw [reported, reportedFrom, List.foldl_append]
  rfl

end PropertyPath

/-- The type that a spec refers to by its name. -/
def PropertySpec.target? (spec : PropertySpec) : Option String :=
  match spec.type with
  | .named target => some target
  | _ => none

namespace PropertySet

mutual

/-- A spec at a path, and the specs below it, in depth and in order. -/
def specTree (path : PropertyPath) : PropertySpec → List (PropertyPath × PropertySpec)
  | ⟨type, required, transforms⟩ => (path, ⟨type, required, transforms⟩) :: typeTree path type

/-- The specs below one of the type at a path. -/
def typeTree (path : PropertyPath) : PropertyType → List (PropertyPath × PropertySpec)
  | .object properties => treeIn path properties
  | .array _ items => specTree (path ++ [.items]) items
  | .string _ _ => []
  | .number _ => []
  | .boolean => []
  | .named _ => []

/-- The specs of the properties of an object at a path, each with those below it. -/
def treeIn (path : PropertyPath) :
    List (String × PropertySpec) → List (PropertyPath × PropertySpec)
  | [] => []
  | (key, spec) :: rest => specTree (path ++ [.key key]) spec ++ treeIn path rest

end

/-- The specs of a property tree with their paths, in depth and in order. -/
def tree (properties : PropertySet) : List (PropertyPath × PropertySpec) :=
  treeIn [] properties

/-- The reference that a spec of a tree makes. -/
def reference? (entry : PropertyPath × PropertySpec) : Option Reference :=
  entry.2.target?.map fun target => ⟨entry.1.reported, target⟩

mutual

theorem specReferences_reported (path : PropertyPath) :
    ∀ spec : PropertySpec,
      specReferences path.reported spec = (specTree path spec).filterMap reference?
  | ⟨type, required, transforms⟩ => by
      rw [specReferences, specTree, typeReferences_reported path type required transforms]

/-- The references of a type come from a spec of the type and from those below it. -/
theorem typeReferences_reported (path : PropertyPath) :
    ∀ (type : PropertyType) (required : Bool) (transforms : List Transform),
      typeReferences path.reported type =
        ((path, ⟨type, required, transforms⟩) :: typeTree path type).filterMap reference?
  | .named target, _, _ => rfl
  | .object properties, _, _ => referencesIn_reported path properties
  | .array _ items, _, _ => by
      rw [typeReferences, ← PropertyPath.reported_append_items,
        specReferences_reported _ items]
      rfl
  | .string _ _, _, _ => rfl
  | .number _, _, _ => rfl
  | .boolean, _, _ => rfl

/-- The references that are listed are those of the tree, in its order. -/
theorem referencesIn_reported (path : PropertyPath) :
    ∀ properties : List (String × PropertySpec),
      referencesIn path.reported properties = (treeIn path properties).filterMap reference?
  | [] => rfl
  | (key, spec) :: rest => by
      rw [referencesIn, treeIn, List.filterMap_append, ← PropertyPath.reported_append_key,
        specReferences_reported _ spec, referencesIn_reported path rest]

end

theorem references_eq (properties : PropertySet) :
    properties.references = properties.tree.filterMap reference? :=
  referencesIn_reported [] properties

end PropertySet

/-- A reference to a type: the declared type that makes it, where in its property tree, and
the name that is referred to. -/
structure Occurrence where
  owner : String
  path : PropertyPath
  target : String
  deriving DecidableEq

namespace Schema

/-- The references that the properties of a type make. -/
def occurrencesIn (owner : String) (properties : PropertySet) : List Occurrence :=
  properties.tree.filterMap fun entry =>
    entry.2.target?.map fun target => ⟨owner, entry.1, target⟩

/-- The references of a schema, type by type in the order of declaration, those of a type in
depth and in the order of its properties. -/
def occurrences (schema : Schema) : List Occurrence :=
  schema.flatMap fun type => occurrencesIn type.1 type.2

theorem map_occurrencesIn (owner : String) (properties : PropertySet) :
    (occurrencesIn owner properties).map
      (fun occurrence => (⟨occurrence.path.reported, occurrence.target⟩ : Reference)) =
        properties.references := by
  rw [occurrencesIn, List.map_filterMap, PropertySet.references_eq]
  refine congrArg (fun f => List.filterMap f properties.tree) (funext fun entry => ?_)
  exact Option.map_map ..

/-- The first reference of a type to an unknown one, with its path. -/
theorem unknownReference?_eq (schema : Schema) (owner : String) (properties : PropertySet) :
    schema.unknownReference? properties =
      ((occurrencesIn owner properties).find? fun occurrence =>
        !schema.has occurrence.target).map
          fun occurrence => ⟨occurrence.path.reported, occurrence.target⟩ := by
  rw [unknownReference?, ← map_occurrencesIn owner, List.find?_map]
  rfl

theorem owner_of_mem_occurrencesIn {owner : String} {properties : PropertySet}
    {occurrence : Occurrence} (h : occurrence ∈ occurrencesIn owner properties) :
    occurrence.owner = owner := by
  obtain ⟨entry, -, hentry⟩ := List.mem_filterMap.mp h
  obtain ⟨target, -, rfl⟩ := Option.map_eq_some_iff.mp hentry
  rfl

/-- The check of the targets fails at the first reference to an unknown type. -/
theorem checkTargets_eq (schema types : Schema) :
    schema.checkTargets types =
      match types.occurrences.find? fun occurrence => !schema.has occurrence.target with
      | none => .ok ()
      | some occurrence =>
        .error (.unknownType occurrence.owner occurrence.path.reported occurrence.target) := by
  induction types with
  | nil => rfl
  | cons type rest ih =>
      obtain ⟨owner, properties⟩ := type
      rw [checkTargets, unknownReference?_eq schema owner, occurrences, List.flatMap_cons,
        List.find?_append]
      cases hfind : (occurrencesIn owner properties).find? fun occurrence =>
          !schema.has occurrence.target with
      | none => exact ih
      | some occurrence =>
          have howner := owner_of_mem_occurrencesIn (List.mem_of_find?_eq_some hfind)
          rw [← howner]
          rfl

/-- The check of the targets fails just at the first reference whose target is not declared. -/
theorem checkTargets_eq_error_iff {schema types : Schema} {error : SchemaError} :
    schema.checkTargets types = .error error ↔
      ∃ front occurrence back, types.occurrences = front ++ occurrence :: back ∧
        (∀ other ∈ front, other.target ∈ schema.names) ∧ occurrence.target ∉ schema.names ∧
        error = .unknownType occurrence.owner occurrence.path.reported occurrence.target := by
  have hhas : ∀ name, (!schema.has name) = true ↔ name ∉ schema.names := by
    intro name
    rw [← Entries.has_iff_mem_names, Bool.not_eq_true', Bool.not_eq_true]
  have hfirst : ∀ occurrence, (types.occurrences.find? fun occurrence =>
      !schema.has occurrence.target) = some occurrence ↔
        occurrence.target ∉ schema.names ∧ ∃ front back,
          types.occurrences = front ++ occurrence :: back ∧
            ∀ other ∈ front, other.target ∈ schema.names := by
    intro occurrence
    simp only [List.find?_eq_some_iff_append, hhas, Bool.not_not, Entries.has_iff_mem_names]
  rw [checkTargets_eq]
  constructor
  · intro h
    cases hfind : types.occurrences.find? fun occurrence => !schema.has occurrence.target with
    | none =>
        rw [hfind] at h
        cases h
    | some occurrence =>
        rw [hfind] at h
        cases h
        obtain ⟨htarget, front, back, hsplit, hfront⟩ := (hfirst occurrence).mp hfind
        exact ⟨front, occurrence, back, hsplit, hfront, htarget, rfl⟩
  · rintro ⟨front, occurrence, back, hsplit, hfront, htarget, rfl⟩
    rw [(hfirst occurrence).mpr ⟨htarget, front, back, hsplit, hfront⟩]

end Schema

end RecordSchema
