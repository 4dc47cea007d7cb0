import RecordSchema.Proofs.PlanOf

/-!
# Plans that are shared

A plan holds the plans of the types it refers to as `Check.reference`, which are those
plans themselves and not copies. `ObjectPlan.AllShared p` says that every plan which is
shared in this way has the property `p`; the plans inside of those are not looked at.

Main statement: the plan of a type shares only plans of types that the type refers to,
`Schema.planOf_allShared`.
-/

namespace RecordSchema

mutual

/-- Every plan that is shared inside the plan has the property. -/
def ObjectPlan.AllShared (p : ObjectPlan → Prop) : ObjectPlan → Prop
  | ⟨_, properties⟩ => PropertyPlan.AllSharedIn p properties

def PropertyPlan.AllSharedIn (p : ObjectPlan → Prop) : List PropertyPlan → Prop
  | [] => True
  | property :: rest => PropertyPlan.AllShared p property ∧ PropertyPlan.AllSharedIn p rest

def PropertyPlan.AllShared (p : ObjectPlan → Prop) : PropertyPlan → Prop
  | ⟨_, _, _, checks⟩ => Check.AllSharedIn p checks

def Check.AllSharedIn (p : ObjectPlan → Prop) : List Check → Prop
  | [] => True
  | check :: rest => Check.AllShared p check ∧ Check.AllSharedIn p rest

def Check.AllShared (p : ObjectPlan → Prop) : Check → Prop
  | .reference plan => p plan
  | .fields plan => ObjectPlan.AllShared p plan
  | .items checks => Check.AllSharedIn p checks
  | .kind _ => True
  | .integer => True
  | .startsWith _ => True
  | .minLength _ => True

end

namespace Check

variable {p : ObjectPlan → Prop}

theorem allSharedIn_ofString (minLength : Option UInt64) (start : Option String) :
    AllSharedIn p (ofString minLength start) := by
  cases minLength <;> cases start <;> simp [ofString, AllSharedIn, AllShared]

theorem allSharedIn_ofNumber (isInteger : Bool) : AllSharedIn p (ofNumber isInteger) := by
  cases isInteger <;> simp [ofNumber, AllSharedIn, AllShared]

theorem allSharedIn_ofArray {items : List Check} (h : AllSharedIn p items)
    (minLength : Option UInt64) : AllSharedIn p (ofArray minLength items) := by
  cases minLength <;> simp [ofArray, AllSharedIn, AllShared, h]

end Check

namespace Schema

section Tree

variable {p : ObjectPlan → Prop} {plan : String → ObjectPlan}

mutual

/-- The checks of a property share the plans of the types that occur in it. -/
theorem specChecks_allShared (path : String) :
    ∀ spec : PropertySpec, (∀ target, spec.type.Mentions target → p (plan target)) →
      Check.AllSharedIn p (specChecks plan path spec)
  | ⟨type, _, _⟩, h => by
      rw [specChecks]
      exact typeChecks_allShared path type h

theorem typeChecks_allShared (path : String) :
    ∀ type : PropertyType, (∀ target, type.Mentions target → p (plan target)) →
      Check.AllSharedIn p (typeChecks plan path type)
  | .string minLength start, _ => Check.allSharedIn_ofString minLength start
  | .number isInteger, _ => Check.allSharedIn_ofNumber isInteger
  | .boolean, _ => by simp [typeChecks, Check.AllSharedIn, Check.AllShared]
  | .object properties, h => by
      have hproperties := propertyPlans_allShared path properties fun target hmentions =>
        h target (PropertyType.mentions_object_iff.mpr hmentions)
      simp [typeChecks, Check.ofObject, Check.AllSharedIn, Check.AllShared, ObjectPlan.AllShared,
        hproperties]
  | .array minLength items, h => by
      have hitems := specChecks_allShared (path ++ "[]") items fun target hmentions =>
        h target (.array hmentions)
      rw [typeChecks]
      exact Check.allSharedIn_ofArray hitems minLength
  | .named name, h => by
      simp [typeChecks, Check.ofReference, Check.AllSharedIn, Check.AllShared, h name .named]

theorem propertyPlans_allShared (path : String) :
    ∀ properties : List (String × PropertySpec),
      (∀ target, PropertySet.Mentions properties target → p (plan target)) →
      PropertyPlan.AllSharedIn p (propertyPlans plan path properties)
  | [], _ => trivial
  | (key, spec) :: rest, h => by
      rw [propertyPlans, PropertyPlan.AllSharedIn, PropertyPlan.AllShared]
      constructor
      · exact specChecks_allShared (path ++ "." ++ key) spec fun target hmentions =>
          h target (PropertySet.mentions_cons.mpr (.inl hmentions))
      · exact propertyPlans_allShared path rest fun target hmentions =>
          h target (PropertySet.mentions_cons.mpr (.inr hmentions))

end

end Tree

/-- The plan of a type shares the plans of the types that it refers to. -/
theorem planOf_allShared {schema : Schema} (hclosed : schema.Closed) (hacyclic : schema.Acyclic)
    {p : ObjectPlan → Prop} {name : String} (hname : name ∈ schema.names)
    (h : ∀ target, schema.RefersTo name target → p (schema.planOf target)) :
    (schema.planOf name).AllShared p := by
  obtain ⟨properties, hget⟩ := Entries.exists_get?_of_mem_names hname
  rw [planOf_eq hclosed hacyclic hget, ObjectPlan.AllShared]
  exact propertyPlans_allShared name properties fun target hmentions =>
    h target ⟨properties, hget, hmentions⟩

end Schema

end RecordSchema
