import Mathlib.Data.Finset.Card
import Mathlib.Data.List.Dedup
import RecordSchema.Plan.Compile
import RecordSchema.Proofs.Reference

/-!
# Plans without compiling

`Schema.propertyPlans` turns properties into plans when the plan of every type
is known already: no state, no events, no failure. `Schema.planOf` closes the
circle by following references down to as many types as the schema has. In a
closed and acyclic schema no way is longer, so that the plan of a type is put
together from the plans of the types that it refers to: `Schema.planOf_eq`.
-/

namespace RecordSchema

namespace Schema

/-! ## Plans from the plans of types -/

mutual

/-- The checks of a property at a path; `plan` gives the plan of a type. -/
def specChecks (plan : String → ObjectPlan) (path : String) : PropertySpec → List Check
  | ⟨type, _, _⟩ => typeChecks plan path type

/-- The checks of a property type at a path. -/
def typeChecks (plan : String → ObjectPlan) (path : String) : PropertyType → List Check
  | .string minLength startsWith => Check.ofString minLength startsWith
  | .number isInteger => Check.ofNumber isInteger
  | .boolean => [.kind .boolean]
  | .object properties => Check.ofObject ⟨path, propertyPlans plan path properties⟩
  | .array minLength items => Check.ofArray minLength (specChecks plan (path ++ "[]") items)
  | .named target => Check.ofReference (plan target)

/-- The plans of the properties of an object at a path. -/
def propertyPlans (plan : String → ObjectPlan) (path : String) :
    List (String × PropertySpec) → List PropertyPlan
  | [] => []
  | (key, spec) :: rest =>
    ⟨key, spec.required, spec.transforms, specChecks plan (path ++ "." ++ key) spec⟩ ::
      propertyPlans plan path rest

end

theorem specChecks_eq (plan : String → ObjectPlan) (path : String) (spec : PropertySpec) :
    specChecks plan path spec = typeChecks plan path spec.type := by
  cases spec
  rw [specChecks]

section Congruence

variable {plan plan' : String → ObjectPlan}

mutual

/-- The checks of a property depend on the plans of the types that occur in it. -/
theorem specChecks_congr (path : String) :
    ∀ spec : PropertySpec, (∀ target, spec.type.Mentions target → plan target = plan' target) →
      specChecks plan path spec = specChecks plan' path spec
  | ⟨type, _, _⟩, h => by
      rw [specChecks, specChecks]
      exact typeChecks_congr path type h

theorem typeChecks_congr (path : String) :
    ∀ type : PropertyType, (∀ target, type.Mentions target → plan target = plan' target) →
      typeChecks plan path type = typeChecks plan' path type
  | .string _ _, _ => rfl
  | .number _, _ => rfl
  | .boolean, _ => rfl
  | .object properties, h => by
      rw [typeChecks, typeChecks, propertyPlans_congr path properties]
      intro target hmentions
      exact h target (PropertyType.mentions_object_iff.mpr hmentions)
  | .array _ items, h => by
      rw [typeChecks, typeChecks, specChecks_congr (path ++ "[]") items]
      intro target hmentions
      exact h target (.array hmentions)
  | .named name, h => by
      rw [typeChecks, typeChecks, h name .named]

theorem propertyPlans_congr (path : String) :
    ∀ properties : List (String × PropertySpec),
      (∀ target, PropertySet.Mentions properties target → plan target = plan' target) →
      propertyPlans plan path properties = propertyPlans plan' path properties
  | [], _ => rfl
  | (key, spec) :: rest, h => by
      have hspec : specChecks plan (path ++ "." ++ key) spec =
          specChecks plan' (path ++ "." ++ key) spec :=
        specChecks_congr _ spec fun target hmentions =>
          h target (PropertySet.mentions_cons.mpr (.inl hmentions))
      have hrest : propertyPlans plan path rest = propertyPlans plan' path rest :=
        propertyPlans_congr path rest fun target hmentions =>
          h target (PropertySet.mentions_cons.mpr (.inr hmentions))
      rw [propertyPlans, propertyPlans, hspec, hrest]

end

end Congruence

/-! ## How far references lead -/

open Classical in
/-- How many declared types a type leads to. -/
noncomputable def rank (schema : Schema) (name : String) : Nat :=
  (schema.names.toFinset.filter fun other =>
    Relation.TransGen schema.RefersTo name other).card

/-- In an acyclic schema a reference leads to a type of lower rank. -/
theorem rank_lt_of_refersTo {schema : Schema} (hclosed : schema.Closed)
    (hacyclic : schema.Acyclic) {owner target : String} (h : schema.RefersTo owner target) :
    rank schema target < rank schema owner := by
  classical
  apply Finset.card_lt_card
  rw [Finset.ssubset_iff_of_subset]
  · refine ⟨target, ?_, ?_⟩
    · rw [Finset.mem_filter, List.mem_toFinset]
      exact ⟨hclosed.target_mem_names h, .single h⟩
    · rw [Finset.mem_filter]
      exact fun hself => hacyclic target hself.2
  · intro other hother
    rw [Finset.mem_filter] at hother ⊢
    exact ⟨hother.1, .head h hother.2⟩

theorem rank_lt_length {schema : Schema} (hacyclic : schema.Acyclic) {name : String}
    (hname : name ∈ schema.names) : rank schema name < schema.length := by
  classical
  have hlength : schema.names.toFinset.card ≤ schema.length := by
    simpa [Entries.names] using schema.names.toFinset_card_le
  refine lt_of_lt_of_le (Finset.card_lt_card ?_) hlength
  rw [Finset.ssubset_iff_of_subset (Finset.filter_subset _ _)]
  refine ⟨name, List.mem_toFinset.mpr hname, ?_⟩
  rw [Finset.mem_filter]
  exact fun hself => hacyclic name hself.2

/-! ## The plan of a type -/

/-- The plan of a type, with references followed over at most `depth` types. -/
def planWithin (schema : Schema) : Nat → String → ObjectPlan
  | 0, name => ⟨name, []⟩
  | depth + 1, name =>
    ⟨name, propertyPlans (planWithin schema depth) name ((schema.get? name).getD [])⟩

/-- The plan of a type. -/
def planOf (schema : Schema) (name : String) : ObjectPlan :=
  schema.planWithin schema.length name

@[simp] theorem planOf_name (schema : Schema) (name : String) :
    (schema.planOf name).name = name := by
  rw [planOf]
  cases schema.length <;> rfl

/-- Depths beyond the rank of a type give the same plan. -/
theorem planWithin_eq_of_rank_lt {schema : Schema} (hclosed : schema.Closed)
    (hacyclic : schema.Acyclic) {depth depth' : Nat} {name : String}
    (h : rank schema name < depth) (h' : rank schema name < depth') :
    planWithin schema depth name = planWithin schema depth' name := by
  induction depth generalizing depth' name with
  | zero => omega
  | succ depth ih =>
      cases depth' with
      | zero => omega
      | succ depth' =>
          rw [planWithin, planWithin, propertyPlans_congr]
          intro target hmentions
          cases hget : schema.get? name with
          | none =>
              rw [hget] at hmentions
              exact absurd hmentions (PropertySet.not_mentions_nil target)
          | some properties =>
              rw [hget] at hmentions
              have hlt := rank_lt_of_refersTo hclosed hacyclic ⟨properties, hget, hmentions⟩
              exact ih (by omega) (by omega)

/-- The plan of a type is put together from those of the types it refers to. -/
theorem planOf_eq {schema : Schema} (hclosed : schema.Closed) (hacyclic : schema.Acyclic)
    {name : String} {properties : PropertySet} (hget : schema.get? name = some properties) :
    schema.planOf name = ⟨name, propertyPlans schema.planOf name properties⟩ := by
  have hname := rank_lt_length hacyclic (Entries.mem_names_of_get? hget)
  rw [planOf, planWithin_eq_of_rank_lt hclosed hacyclic hname (Nat.lt_succ_of_lt hname),
    planWithin, hget]
  rfl

end Schema

end RecordSchema
