import RecordSchema.Proofs.PlanOf

/-!
# Renaming types

`Schema.rename f` gives every type of a schema the name that `f` makes of its own, where
it is declared and wherever it is referred to. If no two types get the same name, the
renamed schema refers just as the schema does, so that it is closed and acyclic if the
schema is.
-/

namespace RecordSchema

mutual

/-- The property with the types in it renamed. -/
def PropertySpec.rename (f : String → String) : PropertySpec → PropertySpec
  | ⟨type, required, transforms⟩ => ⟨PropertyType.rename f type, required, transforms⟩

def PropertyType.rename (f : String → String) : PropertyType → PropertyType
  | .string minLength start => .string minLength start
  | .number isInteger => .number isInteger
  | .boolean => .boolean
  | .object properties => .object (PropertySet.rename f properties)
  | .array minLength items => .array minLength (PropertySpec.rename f items)
  | .named target => .named (f target)

def PropertySet.rename (f : String → String) :
    List (String × PropertySpec) → List (String × PropertySpec)
  | [] => []
  | (key, spec) :: rest => (key, PropertySpec.rename f spec) :: PropertySet.rename f rest

end

theorem PropertySpec.rename_type (f : String → String) (spec : PropertySpec) :
    (spec.rename f).type = spec.type.rename f := by
  cases spec
  rw [PropertySpec.rename]

namespace PropertyType

mutual

/-- A renamed type mentions the new names of what it mentioned before. -/
theorem exists_mentions_of_rename (f : String → String) (target : String) :
    ∀ type : PropertyType, (type.rename f).Mentions target →
      ∃ old, type.Mentions old ∧ f old = target
  | .string _ _, h => by rw [rename] at h; cases h
  | .number _, h => by rw [rename] at h; cases h
  | .boolean, h => by rw [rename] at h; cases h
  | .object properties, h => by
      rw [rename, mentions_object_iff] at h
      obtain ⟨old, hold, hf⟩ := exists_mentions_of_renameIn f target properties h
      exact ⟨old, mentions_object_iff.mpr hold, hf⟩
  | .array _ ⟨type, _, _⟩, h => by
      rw [rename, mentions_array_iff, PropertySpec.rename_type] at h
      obtain ⟨old, hold, hf⟩ := exists_mentions_of_rename f target type h
      exact ⟨old, .array hold, hf⟩
  | .named name, h => by
      rw [rename, mentions_named_iff] at h
      exact ⟨name, .named, h.symm⟩

theorem exists_mentions_of_renameIn (f : String → String) (target : String) :
    ∀ properties : List (String × PropertySpec),
      PropertySet.Mentions (PropertySet.rename f properties) target →
      ∃ old, PropertySet.Mentions properties old ∧ f old = target
  | [], h => by
      rw [PropertySet.rename] at h
      exact absurd h (PropertySet.not_mentions_nil target)
  | (key, ⟨type, required, transforms⟩) :: rest, h => by
      rw [PropertySet.rename, PropertySet.mentions_cons, PropertySpec.rename_type] at h
      rcases h with h | h
      · obtain ⟨old, hold, hf⟩ := exists_mentions_of_rename f target type h
        exact ⟨old, PropertySet.mentions_cons.mpr (.inl hold), hf⟩
      · obtain ⟨old, hold, hf⟩ := exists_mentions_of_renameIn f target rest h
        exact ⟨old, PropertySet.mentions_cons.mpr (.inr hold), hf⟩

end

end PropertyType

namespace Schema

/-- The schema with its types renamed. -/
def rename (f : String → String) (schema : Schema) : Schema :=
  schema.map fun (name, properties) => (f name, PropertySet.rename f properties)

/-- The renaming gives no two types of the schema the same name. -/
def KeptApartBy (schema : Schema) (f : String → String) : Prop :=
  ∀ name ∈ schema.names, ∀ name' ∈ schema.names, f name = f name' → name = name'

variable {schema : Schema} {f : String → String}

theorem names_rename (schema : Schema) (f : String → String) :
    (schema.rename f).names = schema.names.map f := by
  rw [rename, Entries.names, Entries.names, List.map_map, List.map_map]
  rfl

theorem get?_rename (hf : schema.KeptApartBy f) {name : String} (hname : name ∈ schema.names) :
    (schema.rename f).get? (f name) = (schema.get? name).map (PropertySet.rename f) := by
  induction schema with
  | nil => cases hname
  | cons entry rest ih =>
      obtain ⟨first, properties⟩ := entry
      rw [rename, List.map_cons, Entries.get?_cons, Entries.get?_cons]
      by_cases heq : first = name
      · rw [if_pos heq, if_pos (congrArg f heq)]
        rfl
      · have hne : f first ≠ f name := fun h => heq (hf first List.mem_cons_self name hname h)
        have hrest : KeptApartBy rest f := fun a ha b hb =>
          hf a (List.mem_cons_of_mem _ ha) b (List.mem_cons_of_mem _ hb)
        rw [if_neg heq, if_neg hne]
        exact ih hrest ((List.mem_cons.mp hname).resolve_left (Ne.symm heq))

/-- A reference of the renamed schema is one of the schema. -/
theorem refersTo_of_rename (hf : schema.KeptApartBy f) {owner : String}
    (howner : owner ∈ schema.names) {target : String}
    (h : (schema.rename f).RefersTo (f owner) target) :
    ∃ old, schema.RefersTo owner old ∧ f old = target := by
  obtain ⟨properties, hget, hmentions⟩ := h
  rw [get?_rename hf howner] at hget
  obtain ⟨before, hbefore, rfl⟩ := Option.map_eq_some_iff.mp hget
  obtain ⟨old, hold, hold'⟩ := PropertyType.exists_mentions_of_renameIn f target before hmentions
  exact ⟨old, ⟨before, hbefore, hold⟩, hold'⟩

theorem Closed.rename (hclosed : schema.Closed) : (schema.rename f).Closed := by
  intro owner properties hmem target hmentions
  obtain ⟨⟨name, before⟩, hbefore, heq⟩ := List.mem_map.mp hmem
  cases heq
  obtain ⟨old, hold, rfl⟩ := PropertyType.exists_mentions_of_renameIn f target before hmentions
  rw [names_rename]
  exact List.mem_map_of_mem (hclosed name before hbefore old hold)

theorem transGen_of_rename (hclosed : schema.Closed) (hf : schema.KeptApartBy f) {owner : String}
    (howner : owner ∈ schema.names) {target : String}
    (h : Relation.TransGen (schema.rename f).RefersTo (f owner) target) :
    ∃ old ∈ schema.names, Relation.TransGen schema.RefersTo owner old ∧ f old = target := by
  induction h with
  | single hrefers =>
      obtain ⟨old, hold, hf'⟩ := refersTo_of_rename hf howner hrefers
      exact ⟨old, hclosed.target_mem_names hold, .single hold, hf'⟩
  | tail _ hrefers ih =>
      obtain ⟨middle, hmiddle, hway, rfl⟩ := ih
      obtain ⟨old, hold, hf'⟩ := refersTo_of_rename hf hmiddle hrefers
      exact ⟨old, hclosed.target_mem_names hold, hway.tail hold, hf'⟩

theorem Acyclic.rename (hacyclic : schema.Acyclic) (hclosed : schema.Closed)
    (hf : schema.KeptApartBy f) : (schema.rename f).Acyclic := by
  intro name hcycle
  obtain ⟨_, hfirst, -⟩ := Relation.TransGen.head'_iff.mp hcycle
  have hname := hfirst.mem_names
  rw [names_rename] at hname
  obtain ⟨owner, howner, rfl⟩ := List.mem_map.mp hname
  obtain ⟨old, hold, hway, hsame⟩ := transGen_of_rename hclosed hf howner hcycle
  rw [hf old hold owner howner hsame] at hway
  exact hacyclic owner hway

end Schema

end RecordSchema
