import Mathlib.Logic.Relation
import RecordSchema.Plan.Reference

/-!
# What a schema refers to

`PropertyType.Mentions U t` says that the type `t` has the name `U` somewhere in
its tree, and `schema.RefersTo T U` that a property of the declared type `T`
does. A schema is closed if every name that occurs in it is declared, and
acyclic if no type refers to itself, directly or through others. These are the
relations that `Schema.references`, `Schema.graph` and `Schema.checkTargets`
compute.
-/

namespace RecordSchema

/-- The name `target` occurs in a property type, inside its inline objects and
array items at any depth. -/
inductive PropertyType.Mentions (target : String) : PropertyType → Prop
  | named : Mentions target (.named target)
  | object {properties : List (String × PropertySpec)} {key : String} {spec : PropertySpec} :
      (key, spec) ∈ properties → Mentions target spec.type → Mentions target (.object properties)
  | array {minLength : Option UInt64} {items : PropertySpec} :
      Mentions target items.type → Mentions target (.array minLength items)

/-- The name occurs in one of the properties. -/
def PropertySet.Mentions (properties : PropertySet) (target : String) : Prop :=
  ∃ key spec, (key, spec) ∈ properties ∧ spec.type.Mentions target

namespace PropertySet

theorem not_mentions_nil (target : String) : ¬ Mentions [] target := by
  rintro ⟨key, spec, hmem, -⟩
  cases hmem

theorem mentions_cons {key : String} {spec : PropertySpec} {rest : List (String × PropertySpec)}
    {target : String} :
    Mentions ((key, spec) :: rest) target ↔ spec.type.Mentions target ∨ Mentions rest target := by
  constructor
  · rintro ⟨key', spec', hmem, hspec⟩
    rcases List.mem_cons.mp hmem with heq | hrest
    · cases heq
      exact .inl hspec
    · exact .inr ⟨key', spec', hrest, hspec⟩
  · rintro (hspec | ⟨key', spec', hrest, hspec⟩)
    · exact ⟨key, spec, List.mem_cons_self, hspec⟩
    · exact ⟨key', spec', List.mem_cons_of_mem _ hrest, hspec⟩

end PropertySet

namespace PropertyType

theorem mentions_object_iff {properties : List (String × PropertySpec)} {target : String} :
    (object properties).Mentions target ↔ PropertySet.Mentions properties target := by
  constructor
  · rintro (_ | ⟨hmem, hspec⟩)
    exact ⟨_, _, hmem, hspec⟩
  · rintro ⟨key, spec, hmem, hspec⟩
    exact .object hmem hspec

theorem mentions_array_iff {minLength : Option UInt64} {items : PropertySpec} {target : String} :
    (array minLength items).Mentions target ↔ items.type.Mentions target := by
  constructor
  · rintro (_ | _ | hitems)
    exact hitems
  · exact .array

theorem mentions_named_iff {name target : String} :
    (named name).Mentions target ↔ target = name := by
  constructor
  · rintro ⟨⟩
    rfl
  · rintro rfl
    exact .named

end PropertyType

namespace PropertySet

mutual

/-- The references of a property are those that occur in its type, whatever the
path they are listed under. -/
theorem mem_specReferences_iff (target path : String) :
    ∀ spec : PropertySpec,
      target ∈ (specReferences path spec).map Reference.target ↔ spec.type.Mentions target
  | ⟨type, _, _⟩ => by
      rw [specReferences]
      exact mem_typeReferences_iff target path type

theorem mem_typeReferences_iff (target path : String) :
    ∀ type : PropertyType,
      target ∈ (typeReferences path type).map Reference.target ↔ type.Mentions target
  | .named name => by
      rw [typeReferences, PropertyType.mentions_named_iff]
      exact List.mem_singleton
  | .object properties => by
      rw [typeReferences, PropertyType.mentions_object_iff]
      exact mem_referencesIn_iff target path properties
  | .array _ items => by
      rw [typeReferences, PropertyType.mentions_array_iff]
      exact mem_specReferences_iff target (path ++ "[]") items
  | .string _ _ => by
      rw [typeReferences, List.map_nil]
      exact iff_of_false List.not_mem_nil (by rintro ⟨⟩)
  | .number _ => by
      rw [typeReferences, List.map_nil]
      exact iff_of_false List.not_mem_nil (by rintro ⟨⟩)
  | .boolean => by
      rw [typeReferences, List.map_nil]
      exact iff_of_false List.not_mem_nil (by rintro ⟨⟩)

theorem mem_referencesIn_iff (target path : String) :
    ∀ properties : List (String × PropertySpec),
      target ∈ (referencesIn path properties).map Reference.target ↔
        Mentions properties target
  | [] => by
      rw [referencesIn, List.map_nil]
      exact iff_of_false List.not_mem_nil (not_mentions_nil target)
  | (key, spec) :: rest => by
      rw [referencesIn, List.map_append, List.mem_append, mentions_cons]
      exact or_congr (mem_specReferences_iff target _ spec) (mem_referencesIn_iff target path rest)

end

theorem mem_targets_iff {properties : PropertySet} {target : String} :
    target ∈ properties.targets ↔ properties.Mentions target := by
  rw [targets, List.mem_eraseDups, List.mem_mergeSort, references, mem_referencesIn_iff]

end PropertySet

namespace Schema

/-- The declared type `owner` has a reference to `target` in its property tree. -/
def RefersTo (schema : Schema) (owner target : String) : Prop :=
  ∃ properties, schema.get? owner = some properties ∧ PropertySet.Mentions properties target

/-- Every reference of the schema names a declared type. -/
def Closed (schema : Schema) : Prop :=
  ∀ owner properties, (owner, properties) ∈ schema →
    ∀ target, PropertySet.Mentions properties target → target ∈ schema.names

/-- No type refers to itself, directly or through others. -/
def Acyclic (schema : Schema) : Prop :=
  ∀ name, ¬ Relation.TransGen schema.RefersTo name name

theorem RefersTo.mem_names {schema : Schema} {owner target : String}
    (h : schema.RefersTo owner target) : owner ∈ schema.names := by
  obtain ⟨properties, hget, -⟩ := h
  exact Entries.mem_names_of_get? hget

theorem Closed.target_mem_names {schema : Schema} (hclosed : schema.Closed)
    {owner target : String} (h : schema.RefersTo owner target) : target ∈ schema.names := by
  obtain ⟨properties, hget, hmentions⟩ := h
  exact hclosed owner properties (Entries.mem_of_get? hget) target hmentions

theorem unknownReference?_eq_none_iff {schema : Schema} {properties : PropertySet} :
    schema.unknownReference? properties = none ↔
      ∀ target, properties.Mentions target → target ∈ schema.names := by
  rw [unknownReference?, List.find?_eq_none]
  constructor
  · intro h target hmentions
    rw [← PropertySet.mem_referencesIn_iff target "", List.mem_map] at hmentions
    obtain ⟨reference, hmem, rfl⟩ := hmentions
    simpa [Entries.has_iff_mem_names] using h reference hmem
  · intro h reference hmem
    have htarget : reference.target ∈ schema.names := by
      apply h
      rw [← PropertySet.mem_referencesIn_iff _ ""]
      exact List.mem_map_of_mem hmem
    simpa [Entries.has_iff_mem_names] using htarget

/-- What the check of the targets says of some of a schema's types: either every
reference of theirs is known, or it fails at one that is not. -/
theorem checkTargets_cases (schema : Schema) (types : Schema) :
    (schema.checkTargets types = .ok () ∧
      ∀ owner properties, (owner, properties) ∈ types →
        ∀ target, PropertySet.Mentions properties target → target ∈ schema.names) ∨
    ∃ owner properties, ∃ reference : Reference, (owner, properties) ∈ types ∧
      PropertySet.Mentions properties reference.target ∧ reference.target ∉ schema.names ∧
      schema.checkTargets types =
        .error (.unknownType owner reference.property reference.target) := by
  induction types with
  | nil => exact .inl ⟨rfl, fun _ _ hmem => by cases hmem⟩
  | cons type rest ih =>
      obtain ⟨owner, properties⟩ := type
      rw [checkTargets]
      cases hunknown : schema.unknownReference? properties with
      | none =>
          rw [unknownReference?_eq_none_iff] at hunknown
          rcases ih with ⟨hok, hrest⟩ | ⟨owner', properties', reference, hmem, hfail⟩
          · refine .inl ⟨hok, fun owner' properties' hmem => ?_⟩
            rcases List.mem_cons.mp hmem with heq | hmem
            · cases heq
              exact hunknown
            · exact hrest owner' properties' hmem
          · exact .inr ⟨owner', properties', reference, List.mem_cons_of_mem _ hmem, hfail⟩
      | some reference =>
          refine .inr ⟨owner, properties, reference, List.mem_cons_self, ?_, ?_, rfl⟩
          · rw [← PropertySet.mem_referencesIn_iff _ ""]
            exact List.mem_map_of_mem (List.mem_of_find?_eq_some hunknown)
          · have hhas := List.find?_some hunknown
            rw [← Entries.has_iff_mem_names]
            simpa using hhas

/-- The check of the targets passes the closed schemas, and fails at an unknown
type on all others. -/
theorem checkTargets_of_closed {schema : Schema} (h : schema.Closed) :
    schema.checkTargets schema = .ok () := by
  rcases checkTargets_cases schema schema with ⟨hok, -⟩ | ⟨owner, properties, _, hmem, hfail⟩
  · exact hok
  · exact absurd (h owner properties hmem _ hfail.1) hfail.2.1

theorem checkTargets_of_not_closed {schema : Schema} (h : ¬ schema.Closed) :
    ∃ owner property target,
      schema.checkTargets schema = .error (.unknownType owner property target) := by
  rcases checkTargets_cases schema schema with ⟨-, hclosed⟩ | ⟨owner, _, reference, hfail⟩
  · exact absurd hclosed h
  · exact ⟨owner, reference.property, reference.target, hfail.2.2.2⟩

theorem closed_of_checkTargets {schema : Schema} (h : schema.checkTargets schema = .ok ()) :
    schema.Closed := by
  refine Classical.byContradiction fun hopen => ?_
  obtain ⟨_, _, _, hfail⟩ := checkTargets_of_not_closed hopen
  rw [h] at hfail
  cases hfail

/-- A schema in which only one type refers to another one has no circle. -/
theorem acyclic_of_refersTo_only {schema : Schema} {first second : String}
    (hrefers : ∀ owner target, schema.RefersTo owner target → owner = first ∧ target = second)
    (hne : first ≠ second) : schema.Acyclic := by
  intro name hcycle
  obtain ⟨other, hfirst, -⟩ := Relation.TransGen.head'_iff.mp hcycle
  obtain ⟨other', -, hlast⟩ := Relation.TransGen.tail'_iff.mp hcycle
  exact hne ((hrefers _ _ hfirst).1.symm.trans (hrefers _ _ hlast).2)

end Schema

end RecordSchema
