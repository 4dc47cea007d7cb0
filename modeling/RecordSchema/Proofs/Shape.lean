import Mathlib.Data.List.Forall2
import RecordSchema.Validation.Report

/-!
# What validation leaves alone

`ObjectPlan.Keeps` says what may become of a value under a plan. An object keeps its
keys in their order, and a member changes only if a property has its key; an array
keeps its elements in their order. Inside them the same holds of the plans and checks
that are met there. Nothing is said of where an evaluation stops: a member, an element
or an object that was not reached is one that did not change.

Every evaluation keeps the shape of a value in this sense, in both modes.
-/

namespace RecordSchema

mutual

/-- What may become of a value under a plan. Only objects change. -/
def ObjectPlan.Keeps : ObjectPlan → Json → Json → Prop
  | ⟨_, properties⟩, .object record, after =>
    ∃ output, after = .object output ∧
      List.Forall₂
        (fun old new => new.1 = old.1 ∧ PropertyPlan.Keeps properties old.1 old.2 new.2)
        record output
  | _, before, after => after = before

/-- What may become of the member of an object under a key: it is left alone, or it
goes through the transforms and the checks of a property of that key. -/
def PropertyPlan.Keeps : List PropertyPlan → String → Json → Json → Prop
  | [], _, before, after => after = before
  | ⟨name, _, transforms, checks⟩ :: rest, key, before, after =>
    (name = key ∧ Check.KeepsAll checks (Transform.applyAll transforms before) after) ∨
      PropertyPlan.Keeps rest key before after

/-- What may become of a value under checks, one behind the other. -/
def Check.KeepsAll : List Check → Json → Json → Prop
  | [], before, after => after = before
  | check :: rest, before, after =>
    ∃ between, Check.Keeps check before between ∧ Check.KeepsAll rest between after

/-- What may become of a value under a check. Only one that looks inside it changes
anything. -/
def Check.Keeps : Check → Json → Json → Prop
  | .fields plan, before, after => ObjectPlan.Keeps plan before after
  | .reference plan, before, after => ObjectPlan.Keeps plan before after
  | .items checks, .array elements, after =>
    ∃ rewritten, after = .array rewritten ∧
      List.Forall₂ (Check.KeepsAll checks) elements rewritten
  | _, before, after => after = before

end

/-! ## Members -/

namespace PropertyPlan

/-- The members of an object keep their keys and places, and change only as the
properties allow. -/
def KeepsMembers (properties : List PropertyPlan) (record output : Entries Json) : Prop :=
  List.Forall₂ (fun old new => new.1 = old.1 ∧ Keeps properties old.1 old.2 new.2) record output

theorem keeps_refl (properties : List PropertyPlan) (key : String) (value : Json) :
    Keeps properties key value value := by
  induction properties with
  | nil => rw [Keeps]
  | cons property rest ih =>
      obtain ⟨name, required, transforms, checks⟩ := property
      rw [Keeps]
      exact .inr ih

theorem keeps_of_mem {properties : List PropertyPlan} {property : PropertyPlan}
    (hmem : property ∈ properties) {before after : Json}
    (h : Check.KeepsAll property.checks (Transform.applyAll property.transforms before) after) :
    Keeps properties property.key before after := by
  induction properties with
  | nil => cases hmem
  | cons first rest ih =>
      obtain ⟨name, required, transforms, checks⟩ := first
      rw [Keeps]
      rcases List.mem_cons.mp hmem with rfl | hrest
      · exact .inl ⟨rfl, h⟩
      · exact .inr (ih hrest)

/-- A member that no property is about does not change. -/
theorem eq_of_keeps {properties : List PropertyPlan} {key : String}
    (hkey : ∀ property ∈ properties, property.key ≠ key) {before after : Json}
    (h : Keeps properties key before after) : after = before := by
  induction properties with
  | nil => rwa [Keeps] at h
  | cons first rest ih =>
      obtain ⟨name, required, transforms, checks⟩ := first
      rw [Keeps] at h
      rcases h with ⟨hname, -⟩ | hrest
      · exact absurd hname (hkey _ List.mem_cons_self)
      · exact ih (fun property hmem => hkey property (List.mem_cons_of_mem _ hmem)) hrest

variable {properties : List PropertyPlan} {record output : Entries Json}

theorem KeepsMembers.refl (properties : List PropertyPlan) (record : Entries Json) :
    KeepsMembers properties record record :=
  List.forall₂_same.mpr fun member _ => ⟨rfl, keeps_refl properties member.1 member.2⟩

theorem KeepsMembers.names_eq (h : KeepsMembers properties record output) :
    output.names = record.names := by
  induction h with
  | nil => rfl
  | cons hmember _ ih => rw [Entries.names_cons, Entries.names_cons, hmember.1, ih]

theorem KeepsMembers.get?_eq (h : KeepsMembers properties record output) {key : String}
    (hkey : ∀ property ∈ properties, property.key ≠ key) : output.get? key = record.get? key := by
  induction h with
  | nil => rfl
  | @cons old new _ _ hmember _ ih =>
      obtain ⟨name, before⟩ := old
      obtain ⟨name', after⟩ := new
      obtain ⟨rfl, hvalue⟩ := hmember
      rw [Entries.get?_cons, Entries.get?_cons, ih]
      by_cases hname : name' = key
      · subst hname
        have hafter : after = before := eq_of_keeps hkey hvalue
        simp [hafter]
      · rw [if_neg hname, if_neg hname]

/-- A member may be replaced by what becomes of its first value. -/
theorem KeepsMembers.put (h : KeepsMembers properties record output) {key : String}
    {raw value : Json} (hraw : record.get? key = some raw)
    (hvalue : Keeps properties key raw value) :
    KeepsMembers properties record (output.put key value) := by
  induction h with
  | nil => cases hraw
  | @cons old new _ _ hmember hrest ih =>
      obtain ⟨name, before⟩ := old
      obtain ⟨name', after⟩ := new
      obtain ⟨rfl, hafter⟩ := hmember
      rw [Entries.get?_cons] at hraw
      rw [Entries.put]
      by_cases hname : name' = key
      · subst hname
        rw [if_pos rfl] at hraw ⊢
        cases hraw
        exact .cons ⟨rfl, hvalue⟩ hrest
      · rw [if_neg hname] at hraw ⊢
        exact .cons ⟨rfl, hafter⟩ (ih hraw)

end PropertyPlan

namespace ObjectPlan

theorem keeps_object_iff {plan : ObjectPlan} {record : Entries Json} {after : Json} :
    plan.Keeps (.object record) after ↔
      ∃ output, after = .object output ∧
        PropertyPlan.KeepsMembers plan.properties record output := by
  cases plan
  rw [Keeps]
  rfl

theorem keeps_refl (plan : ObjectPlan) (value : Json) : plan.Keeps value value := by
  cases value with
  | object record => exact keeps_object_iff.mpr ⟨record, rfl, .refl plan.properties record⟩
  | _ => cases plan; rfl

end ObjectPlan

/-! ## Checks -/

namespace Check

mutual

/-- A value that is left alone keeps its shape. -/
theorem keepsAll_refl : ∀ (checks : List Check) (value : Json), KeepsAll checks value value
  | [], value => by rw [KeepsAll]
  | check :: rest, value => by
      rw [KeepsAll]
      exact ⟨value, keeps_refl check value, keepsAll_refl rest value⟩

theorem keeps_refl : ∀ (check : Check) (value : Json), check.Keeps value value
  | .kind _, value => by cases value <;> rfl
  | .integer, value => by cases value <;> rfl
  | .startsWith _, value => by cases value <;> rfl
  | .minLength _, value => by cases value <;> rfl
  | .fields plan, value => by
      rw [Keeps]
      exact plan.keeps_refl value
  | .reference plan, value => by
      rw [Keeps]
      exact plan.keeps_refl value
  | .items checks, .array elements => by
      rw [Keeps]
      exact ⟨elements, rfl, List.forall₂_same.mpr fun element _ => keepsAll_refl checks element⟩
  | .items _, .null => rfl
  | .items _, .boolean _ => rfl
  | .items _, .number _ => rfl
  | .items _, .string _ => rfl
  | .items _, .object _ => rfl

end

/-- The elements of an array keep their places, if each keeps its shape. -/
theorem checkElements_keep {checks : List Check} {check : Json → Checked}
    (h : ∀ element, KeepsAll checks element (check element).value) (index : Nat)
    (elements : List Json) :
    List.Forall₂ (KeepsAll checks) elements (checkElements check index elements).1 := by
  induction elements generalizing index with
  | nil => exact .nil
  | cons element rest ih =>
      rw [checkElements]
      dsimp only
      cases (check element).violation with
      | some violation =>
          -- the elements behind one that does not pass are those of the array
          exact .cons (h element) (List.forall₂_same.mpr fun other _ => keepsAll_refl checks other)
      | none => exact .cons (h element) (ih (index + 1))

theorem checkItems_keeps {checks : List Check} {check : Json → Checked}
    (h : ∀ element, KeepsAll checks element (check element).value) (value : Json) :
    Keeps (.items checks) value (checkItems check value).value := by
  cases value with
  | array elements =>
      rw [Keeps]
      exact ⟨_, rfl, checkElements_keep h 0 elements⟩
  | _ => rfl

theorem checkStart_value (start : String) (value : Json) :
    (checkStart start value).value = value := by
  cases value <;> rfl

theorem checkLength_value (least : UInt64) (value : Json) :
    (checkLength least value).value = value := by
  cases value <;> rfl

end Check

/-! ## The induction over plans -/

mutual

/-- An evaluation keeps the shape of its value. -/
theorem ObjectPlan.keeps_evaluate (mode : Mode) :
    ∀ (plan : ObjectPlan) (value : Json), plan.Keeps value (plan.evaluate mode value).value
  | ⟨_, properties⟩, .object record => by
      rw [ObjectPlan.keeps_object_iff, ObjectPlan.evaluate]
      exact ⟨_, rfl, PropertyPlan.keepsMembers_evaluateAll mode properties properties
        (fun _ hmem => hmem) record record (.refl properties record)⟩
  | ⟨_, _⟩, .null => rfl
  | ⟨_, _⟩, .boolean _ => rfl
  | ⟨_, _⟩, .number _ => rfl
  | ⟨_, _⟩, .string _ => rfl
  | ⟨_, _⟩, .array _ => rfl

/-- Evaluating some of the properties of a plan keeps the members of the record in the
output, wherever it stops. -/
theorem PropertyPlan.keepsMembers_evaluateAll (mode : Mode) :
    ∀ (properties all : List PropertyPlan), (∀ property ∈ properties, property ∈ all) →
      ∀ record output : Entries Json, PropertyPlan.KeepsMembers all record output →
        PropertyPlan.KeepsMembers all record
          (PropertyPlan.evaluateAll mode properties record output).1
  | [], _, _, _, _, h => h
  | property :: rest, all, hall, record, output, h => by
      have hstep : PropertyPlan.KeepsMembers all record
          (PropertyPlan.evaluate mode property record output).1 :=
        PropertyPlan.keepsMembers_evaluate mode property all (hall property List.mem_cons_self)
          record output h
      have hrest := PropertyPlan.keepsMembers_evaluateAll mode rest all
        (fun other hmem => hall other (List.mem_cons_of_mem _ hmem)) record _ hstep
      rw [PropertyPlan.evaluateAll]
      dsimp only
      cases (PropertyPlan.evaluate mode property record output).2 with
      | none => exact hrest
      | some failure =>
          cases mode with
          | assertion => exact hstep
          | verbose => exact hrest

theorem PropertyPlan.keepsMembers_evaluate (mode : Mode) :
    ∀ (property : PropertyPlan) (all : List PropertyPlan), property ∈ all →
      ∀ record output : Entries Json, PropertyPlan.KeepsMembers all record output →
        PropertyPlan.KeepsMembers all record (PropertyPlan.evaluate mode property record output).1
  | ⟨key, required, transforms, checks⟩, all, hmem, record, output, h => by
      rw [PropertyPlan.evaluate]
      cases hraw : record.get? key with
      | none => exact h
      | some raw =>
          have hvalue := Check.keepsAll_runAll mode checks (Transform.applyAll transforms raw)
          exact h.put hraw (PropertyPlan.keeps_of_mem hmem hvalue)

theorem Check.keepsAll_runAll (mode : Mode) :
    ∀ (checks : List Check) (value : Json),
      Check.KeepsAll checks value (Check.runAll mode checks value).value
  | [], value => Check.keepsAll_refl [] value
  | check :: rest, value => by
      have hcheck := Check.keeps_run mode check value
      rw [Check.KeepsAll, Check.runAll]
      refine ⟨_, hcheck, ?_⟩
      cases (Check.run mode check value).violation with
      | some violation => exact Check.keepsAll_refl rest _
      | none => exact Check.keepsAll_runAll mode rest _

theorem Check.keeps_run (mode : Mode) :
    ∀ (check : Check) (value : Json), check.Keeps value (Check.run mode check value).value
  | .kind kind, value => Check.keeps_refl (.kind kind) value
  | .integer, value => Check.keeps_refl .integer value
  | .startsWith start, value => by
      rw [Check.run, Check.checkStart_value]
      exact Check.keeps_refl _ value
  | .minLength least, value => by
      rw [Check.run, Check.checkLength_value]
      exact Check.keeps_refl _ value
  | .fields plan, value => by
      rw [Check.run, Check.Keeps]
      exact plan.keeps_evaluate mode value
  | .reference plan, value => by
      rw [Check.run, Check.Keeps]
      exact plan.keeps_evaluate mode value
  | .items checks, value => by
      rw [Check.run]
      exact Check.checkItems_keeps (fun element => Check.keepsAll_runAll mode checks element) value

end

/-- Whatever the plan, the mode and the failures, the value of an evaluation of an
object is an object with the same keys in the same order. The value under a key that
the plan does not name is the same. The others have only changed as their properties
allow, and objects and arrays inside them keep their shape in the same way. -/
theorem ObjectPlan.evaluate_object_keeps_shape (plan : ObjectPlan) (mode : Mode)
    (record : Entries Json) :
    ∃ output : Entries Json, (plan.evaluate mode (.object record)).value = .object output ∧
      output.names = record.names ∧
      (∀ key, (∀ property ∈ plan.properties, property.key ≠ key) →
        output.get? key = record.get? key) ∧
      PropertyPlan.KeepsMembers plan.properties record output := by
  obtain ⟨output, hvalue, hmembers⟩ :=
    ObjectPlan.keeps_object_iff.mp (plan.keeps_evaluate mode (.object record))
  exact ⟨output, hvalue, hmembers.names_eq, fun key hkey => hmembers.get?_eq hkey, hmembers⟩

end RecordSchema
