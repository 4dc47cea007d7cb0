import Mathlib.Data.List.Nodup
import RecordSchema.Schema.Basic

/-!
# Distinct names

A property set is distinct if no name occurs twice in it, nor in any of the sets of
the inline objects and array items below it. `PropertySet.insert` refuses a name
that is taken, so sets that are built with it stay distinct.
-/

namespace RecordSchema

/-- The sets of the inline objects in a type have distinct names at every depth. -/
inductive PropertyType.Distinct : PropertyType → Prop
  | string (minLength : Option UInt64) (start : Option String) : Distinct (.string minLength start)
  | number (isInteger : Bool) : Distinct (.number isInteger)
  | boolean : Distinct .boolean
  | named (target : String) : Distinct (.named target)
  | array {minLength : Option UInt64} {items : PropertySpec} :
      Distinct items.type → Distinct (.array minLength items)
  | object {properties : List (String × PropertySpec)} :
      (Entries.names properties).Nodup →
      (∀ key spec, (key, spec) ∈ properties → Distinct spec.type) → Distinct (.object properties)

/-- The names of the set are distinct, and so are those of the sets in it. -/
structure PropertySet.Distinct (properties : PropertySet) : Prop where
  nodup : properties.names.Nodup
  type : ∀ key spec, (key, spec) ∈ properties → spec.type.Distinct

/-- Every property set of the schema is distinct. -/
def Schema.Distinct (schema : Schema) : Prop :=
  ∀ name properties, (name, properties) ∈ schema → PropertySet.Distinct properties

theorem PropertyType.distinct_object_iff {properties : List (String × PropertySpec)} :
    (object properties).Distinct ↔ PropertySet.Distinct properties := by
  constructor
  · rintro (_ | _ | _ | _ | _ | ⟨hnodup, htype⟩)
    exact ⟨hnodup, htype⟩
  · rintro ⟨hnodup, htype⟩
    exact .object hnodup htype

theorem PropertyType.distinct_array_iff {minLength : Option UInt64} {items : PropertySpec} :
    (array minLength items).Distinct ↔ items.type.Distinct := by
  constructor
  · rintro (_ | _ | _ | _ | hitems)
    exact hitems
  · exact .array

namespace PropertySet

theorem distinct_nil : Distinct [] :=
  ⟨List.nodup_nil, fun _ _ hmem => by cases hmem⟩

/-- A set stays distinct when a property is inserted. -/
theorem Distinct.insert {set set' : PropertySet} (hset : set.Distinct) {name : String}
    {spec : PropertySpec} (hspec : spec.type.Distinct) (h : set.insert name spec = .ok set') :
    set'.Distinct := by
  rw [PropertySet.insert] at h
  by_cases hhas : set.has name = true
  · rw [if_pos hhas] at h
    cases h
  · rw [if_neg hhas] at h
    cases h
    rw [Entries.has_iff_mem_names] at hhas
    constructor
    · rw [Entries.names, List.map_append, List.nodup_append]
      refine ⟨hset.nodup, List.nodup_singleton _, ?_⟩
      rintro other hother _ hname rfl
      rw [List.map_singleton, List.mem_singleton] at hname
      rw [hname] at hother
      exact hhas hother
    · intro key spec' hmem
      rcases List.mem_append.mp hmem with hmem | hmem
      · exact hset.type key spec' hmem
      · cases List.mem_singleton.mp hmem
        exact hspec

end PropertySet

namespace Schema

theorem distinct_nil : Distinct [] := by
  intro _ _ hmem
  cases hmem

/-- The properties of a type are distinct, also where the type is not declared. -/
theorem Distinct.get?_getD {schema : Schema} (h : schema.Distinct) (name : String) :
    PropertySet.Distinct ((schema.get? name).getD []) := by
  cases hget : schema.get? name with
  | none => exact PropertySet.distinct_nil
  | some properties => exact h name properties (Entries.mem_of_get? hget)

/-- A schema stays distinct when a type with distinct properties is inserted. -/
theorem Distinct.insert {schema schema' : Schema} (hschema : schema.Distinct) {name : String}
    {properties : PropertySet} (hproperties : properties.Distinct)
    (h : schema.insert name properties = .ok schema') : schema'.Distinct := by
  rw [Schema.insert] at h
  split at h
  · cases h
  split at h
  · cases h
  cases h
  intro other properties' hmem
  rcases List.mem_append.mp hmem with hmem | hmem
  · exact hschema other properties' hmem
  · cases List.mem_singleton.mp hmem
    exact hproperties

end Schema

end RecordSchema
