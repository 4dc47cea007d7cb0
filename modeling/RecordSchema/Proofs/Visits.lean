import RecordSchema.Proofs.Report
import RecordSchema.Proofs.Shape

/-!
# No check is skipped

A check that does not fit its value says nothing: the start of a number, the elements of a
string. A plan built by hand may hold such checks. Those of a compiled plan stand behind one of
the kind of the value, and whatever a check writes is of the kind of what it was given, so that
all that are reached fit.

`ObjectPlan.visits` lists the checks that an evaluation reaches, each with the value that it is
given. `ObjectPlan.evaluate?` is the evaluation without the lines for values that do not fit.
The two belong together, `ObjectPlan.evaluate?_object`: this evaluation ends in nothing as soon
as there is a visit that does not fit, and is the other one if there is none.

Main statements: the visits of a plan that is `Guarded` fit, `ObjectPlan.visits_fit`, compiled
plans are guarded, `Schema.planOf_guarded`, and `Schema.compile_skips_nothing`.
-/

namespace RecordSchema

/-! ## What is reached -/

/-- Whether a check has something to say of a value. -/
def Check.fits : Check → Json → Bool
  | .kind _, _ => true
  | .integer, .number _ => true
  | .startsWith _, .string _ => true
  | .minLength _, .string _ => true
  | .minLength _, .array _ => true
  | .fields _, .object _ => true
  | .reference _, .object _ => true
  | .items _, .array _ => true
  | _, _ => false

/-- A check that is reached, and the value that it is given. -/
structure Visit where
  check : Check
  value : Json

/-- Whether the check of a visit fits its value. -/
def Visit.fits (visit : Visit) : Bool :=
  visit.check.fits visit.value

/-- The visits inside the elements of an array, up to the first that does not pass. -/
def Check.visitsElements (check : Json → Checked) (visits : Json → List Visit) :
    List Json → List Visit
  | [] => []
  | element :: rest =>
    visits element ++
      match (check element).violation with
      | some _ => []
      | none => visitsElements check visits rest

mutual

/-- The visits of an evaluation of a value, in order. -/
def ObjectPlan.visits (mode : Mode) : ObjectPlan → Json → List Visit
  | ⟨_, properties⟩, .object record => PropertyPlan.visitsAll mode properties record record
  | _, _ => []

/-- The visits of the properties of a record, of which an assertion reaches those up to the
first that fails. -/
def PropertyPlan.visitsAll (mode : Mode) :
    List PropertyPlan → Entries Json → Entries Json → List Visit
  | [], _, _ => []
  | property :: rest, record, output =>
    let step := PropertyPlan.evaluate mode property record output
    PropertyPlan.visits mode property record ++
      match step.2 with
      | none => PropertyPlan.visitsAll mode rest record step.1
      | some _ =>
        match mode with
        | .assertion => []
        | .verbose => PropertyPlan.visitsAll mode rest record step.1

/-- The visits of one property of a record. -/
def PropertyPlan.visits (mode : Mode) : PropertyPlan → Entries Json → List Visit
  | ⟨key, _, transforms, checks⟩, record =>
    match record.get? key with
    | none => []
    | some raw => Check.visitsAll mode checks (Transform.applyAll transforms raw)

/-- The visits of checks that run in order, up to the first that does not pass. -/
def Check.visitsAll (mode : Mode) : List Check → Json → List Visit
  | [], _ => []
  | check :: rest, value =>
    let checked := Check.run mode check value
    ⟨check, value⟩ :: Check.visitsInside mode check value ++
      match checked.violation with
      | some _ => []
      | none => Check.visitsAll mode rest checked.value

/-- The visits inside a value while a check runs. -/
def Check.visitsInside (mode : Mode) : Check → Json → List Visit
  | .fields plan, value => ObjectPlan.visits mode plan value
  | .reference plan, value => ObjectPlan.visits mode plan value
  | .items checks, .array elements =>
    Check.visitsElements (Check.runAll mode checks) (Check.visitsAll mode checks) elements
  | _, _ => []

end

/-! ## The evaluation without other values -/

/-- Checks the elements of an array, as long as there is something to say of them. -/
def Check.checkElements? (check : Json → Option Checked) :
    Nat → List Json → Option (List Json × Option Violation)
  | _, [] => some ([], none)
  | index, element :: rest => do
    let checked ← check element
    match checked.violation with
    | some violation => return (checked.value :: rest, some (.item index violation))
    | none =>
      let others ← checkElements? check (index + 1) rest
      return (checked.value :: others.1, others.2)

mutual

/-- Evaluates an object against a plan, as long as there is something to say of it. -/
def ObjectPlan.evaluate? (mode : Mode) : ObjectPlan → Json → Option Evaluation
  | ⟨_, properties⟩, .object record => do
    let result ← PropertyPlan.evaluateAll? mode properties record record
    return ⟨.object result.1, result.2⟩
  | _, _ => none

def PropertyPlan.evaluateAll? (mode : Mode) :
    List PropertyPlan → Entries Json → Entries Json → Option (Entries Json × List Failure)
  | [], _, output => some (output, [])
  | property :: rest, record, output => do
    let step ← PropertyPlan.evaluate? mode property record output
    match step.2 with
    | none => PropertyPlan.evaluateAll? mode rest record step.1
    | some failure =>
      match mode with
      | .assertion => return (step.1, [failure])
      | .verbose =>
        let others ← PropertyPlan.evaluateAll? mode rest record step.1
        return (others.1, failure :: others.2)

def PropertyPlan.evaluate? (mode : Mode) :
    PropertyPlan → Entries Json → Entries Json → Option (Entries Json × Option Failure)
  | ⟨key, required, transforms, checks⟩, record, output =>
    match record.get? key with
    | none => some (output, if required then some (.missing key) else none)
    | some raw => do
      let checked ← Check.runAll? mode checks (Transform.applyAll transforms raw)
      return (output.put key checked.value, checked.violation.map (.violated key))

def Check.runAll? (mode : Mode) : List Check → Json → Option Checked
  | [], value => some ⟨value, none⟩
  | check :: rest, value => do
    let checked ← Check.run? mode check value
    match checked.violation with
    | some violation => return ⟨checked.value, some violation⟩
    | none => Check.runAll? mode rest checked.value

/-- Runs a check on a value that it fits. -/
def Check.run? (mode : Mode) : Check → Json → Option Checked
  | .kind kind, value => some (Check.require value (kind.holds value) (.wrongKind kind))
  | .integer, .number n => some (Check.require (.number n) n.isWhole .notWhole)
  | .startsWith start, .string text =>
    some (Check.require (.string text) (Check.textStarts start text) (.wrongStart start))
  | .minLength least, .string text =>
    some (Check.require (.string text) (decide (least.toNat ≤ text.length))
      (.tooFewCharacters least))
  | .minLength least, .array elements =>
    some (Check.require (.array elements) (decide (least.toNat ≤ elements.length))
      (.tooFewItems least))
  | .fields plan, value => (ObjectPlan.evaluate? mode plan value).map Check.ofEvaluation
  | .reference plan, value => (ObjectPlan.evaluate? mode plan value).map Check.ofEvaluation
  | .items checks, .array elements => do
    let checked ← Check.checkElements? (Check.runAll? mode checks) 0 elements
    return ⟨.array checked.1, checked.2⟩
  | _, _ => none

end

/-! ## The two belong together -/

namespace Visit

variable {α β : Type}

/-- A result that is there if all visits fit. -/
def ifFit (visits : List Visit) (result : α) : Option α :=
  if visits.all fits then some result else none

theorem ifFit_bind {front back : List Visit} {first : α} {result : β} {next : α → Option β}
    (h : next first = ifFit back result) :
    ifFit front first >>= next = ifFit (front ++ back) result := by
  rw [ifFit, ifFit, List.all_append, Option.bind_eq_bind]
  cases front.all fits with
  | false => rfl
  | true =>
      rw [if_pos rfl, Option.bind_some, h, ifFit, Bool.true_and]

theorem ifFit_map (visits : List Visit) (result : α) (f : α → β) :
    (ifFit visits result).map f = ifFit visits (f result) := by
  rw [ifFit, ifFit]
  split <;> rfl

theorem ifFit_bind_some (visits : List Visit) (result : α) (f : α → β) :
    (ifFit visits result >>= fun x => some (f x)) = ifFit visits (f result) := by
  rw [← ifFit_map]
  cases ifFit visits result <;> rfl

theorem ifFit_of_forall {visits : List Visit} (h : ∀ visit ∈ visits, visit.fits = true)
    (result : α) : ifFit visits result = some result :=
  if_pos (List.all_eq_true.mpr h)

end Visit

open Visit (ifFit)

theorem Check.checkElements?_eq {check? : Json → Option Checked} {check : Json → Checked}
    {visits : Json → List Visit} (h : ∀ element, check? element = ifFit (visits element)
      (check element)) (index : Nat) (elements : List Json) :
    checkElements? check? index elements =
      ifFit (visitsElements check visits elements) (checkElements check index elements) := by
  induction elements generalizing index with
  | nil => rfl
  | cons element rest ih =>
      rw [checkElements?, checkElements, visitsElements, h]
      apply Visit.ifFit_bind
      dsimp only
      cases (check element).violation with
      | some violation => rfl
      | none =>
          dsimp only
          rw [ih, Option.pure_def, Visit.ifFit_bind_some]

mutual

/-- The evaluation of an object without other values is the evaluation, unless there is a visit
that does not fit. -/
theorem ObjectPlan.evaluate?_object (mode : Mode) :
    ∀ (plan : ObjectPlan) (record : Entries Json),
      plan.evaluate? mode (.object record) =
        ifFit (plan.visits mode (.object record)) (plan.evaluate mode (.object record))
  | ⟨_, properties⟩, record => by
      rw [ObjectPlan.evaluate?, ObjectPlan.visits, ObjectPlan.evaluate,
        PropertyPlan.evaluateAll?_eq mode properties record record, Option.pure_def,
        Visit.ifFit_bind_some]

theorem PropertyPlan.evaluateAll?_eq (mode : Mode) :
    ∀ (properties : List PropertyPlan) (record output : Entries Json),
      PropertyPlan.evaluateAll? mode properties record output =
        ifFit (PropertyPlan.visitsAll mode properties record output)
          (PropertyPlan.evaluateAll mode properties record output)
  | [], _, _ => rfl
  | property :: rest, record, output => by
      have hrest := PropertyPlan.evaluateAll?_eq mode rest record
        (PropertyPlan.evaluate mode property record output).1
      rw [PropertyPlan.evaluateAll?, PropertyPlan.evaluateAll,
        PropertyPlan.evaluate?_eq mode property record output]
      cases mode with
      | assertion =>
          rw [PropertyPlan.visitsAll]
          apply Visit.ifFit_bind
          dsimp only
          cases (PropertyPlan.evaluate .assertion property record output).2 with
          | none => exact hrest
          | some failure => rfl
      | verbose =>
          rw [PropertyPlan.visitsAll]
          apply Visit.ifFit_bind
          dsimp only
          cases (PropertyPlan.evaluate .verbose property record output).2 with
          | none => exact hrest
          | some failure =>
              dsimp only
              rw [hrest, Option.pure_def, Visit.ifFit_bind_some]

theorem PropertyPlan.evaluate?_eq (mode : Mode) :
    ∀ (property : PropertyPlan) (record output : Entries Json),
      PropertyPlan.evaluate? mode property record output =
        ifFit (PropertyPlan.visits mode property record)
          (PropertyPlan.evaluate mode property record output)
  | ⟨key, required, transforms, checks⟩, record, output => by
      rw [PropertyPlan.evaluate?, PropertyPlan.visits, PropertyPlan.evaluate]
      cases record.get? key with
      | none => rfl
      | some raw =>
          dsimp only
          rw [Check.runAll?_eq mode checks, Option.pure_def, Visit.ifFit_bind_some]

theorem Check.runAll?_eq (mode : Mode) :
    ∀ (checks : List Check) (value : Json),
      Check.runAll? mode checks value =
        ifFit (Check.visitsAll mode checks value) (Check.runAll mode checks value)
  | [], _ => rfl
  | check :: rest, value => by
      rw [Check.runAll?, Check.runAll, Check.visitsAll, Check.run?_eq mode check value]
      apply Visit.ifFit_bind
      cases (Check.run mode check value).violation with
      | some violation => rfl
      | none => exact Check.runAll?_eq mode rest _

theorem Check.run?_eq (mode : Mode) :
    ∀ (check : Check) (value : Json),
      Check.run? mode check value =
        ifFit (⟨check, value⟩ :: Check.visitsInside mode check value) (Check.run mode check value)
  | .kind _, value => by cases value <;> rfl
  | .integer, value => by cases value <;> rfl
  | .startsWith _, value => by cases value <;> rfl
  | .minLength _, value => by cases value <;> rfl
  | .fields plan, value => by
      rw [Check.run?, Check.visitsInside, Check.run]
      cases value with
      | object record =>
          rw [ObjectPlan.evaluate?_object mode plan record, Visit.ifFit_map]
          rfl
      | _ => cases plan; rfl
  | .reference plan, value => by
      rw [Check.run?, Check.visitsInside, Check.run]
      cases value with
      | object record =>
          rw [ObjectPlan.evaluate?_object mode plan record, Visit.ifFit_map]
          rfl
      | _ => cases plan; rfl
  | .items checks, value => by
      cases value with
      | array elements =>
          rw [Check.run?, Check.visitsInside, Check.run, Check.checkItems,
            Check.checkElements?_eq (Check.runAll?_eq mode checks), Option.pure_def,
            Visit.ifFit_bind_some]
          rfl
      | _ => rfl

end

/-! ## Guarded plans -/

mutual

/-- The checks of each property start with the kind that the others are for, at any depth. -/
def ObjectPlan.Guarded : ObjectPlan → Prop
  | ⟨_, properties⟩ => PropertyPlan.GuardedAll properties

def PropertyPlan.GuardedAll : List PropertyPlan → Prop
  | [] => True
  | property :: rest => PropertyPlan.Guarded property ∧ PropertyPlan.GuardedAll rest

def PropertyPlan.Guarded : PropertyPlan → Prop
  | ⟨_, _, _, checks⟩ => Check.GuardedAll checks

def Check.GuardedAll : List Check → Prop
  | .kind kind :: rest => Check.SuitAll kind rest
  | _ => False

def Check.SuitAll (kind : ValueKind) : List Check → Prop
  | [] => True
  | check :: rest => Check.Suits kind check ∧ Check.SuitAll kind rest

/-- The check is for values of the kind, and what it holds is guarded. -/
def Check.Suits (kind : ValueKind) : Check → Prop
  | .kind _ => True
  | .integer => kind = .number
  | .startsWith _ => kind = .string
  | .minLength _ => kind = .string ∨ kind = .array
  | .fields plan => kind = .object ∧ ObjectPlan.Guarded plan
  | .reference plan => kind = .object ∧ ObjectPlan.Guarded plan
  | .items checks => kind = .array ∧ Check.GuardedAll checks

end

theorem Check.fits_of_suits {kind : ValueKind} {check : Check} (h : check.Suits kind)
    {value : Json} (hkind : kind.holds value = true) : check.fits value = true := by
  cases check with
  | kind _ => rfl
  | integer =>
      rw [Suits] at h
      subst h
      cases value <;> trivial
  | startsWith start =>
      rw [Suits] at h
      subst h
      cases value <;> trivial
  | minLength least =>
      rw [Suits] at h
      rcases h with rfl | rfl <;> cases value <;> trivial
  | fields plan =>
      rw [Suits] at h
      obtain ⟨rfl, -⟩ := h
      cases value <;> trivial
  | reference plan =>
      rw [Suits] at h
      obtain ⟨rfl, -⟩ := h
      cases value <;> trivial
  | items checks =>
      rw [Suits] at h
      obtain ⟨rfl, -⟩ := h
      cases value <;> trivial

/-! ## Checks keep the kind of a value -/

namespace ValueKind

theorem holds_evaluate (kind : ValueKind) (mode : Mode) (plan : ObjectPlan) (value : Json) :
    kind.holds (plan.evaluate mode value).value = kind.holds value := by
  cases plan
  cases value with
  | object record => cases kind <;> rfl
  | _ => rfl

theorem holds_checkItems (kind : ValueKind) (check : Json → Checked) (value : Json) :
    kind.holds (Check.checkItems check value).value = kind.holds value := by
  cases value with
  | array elements => cases kind <;> rfl
  | _ => rfl

/-- What a check makes of a value is of the same kind. -/
theorem holds_run (kind : ValueKind) (mode : Mode) (check : Check) (value : Json) :
    kind.holds (Check.run mode check value).value = kind.holds value := by
  cases check with
  | kind _ => rfl
  | integer => rfl
  | startsWith start => rw [Check.run, Check.checkStart_value]
  | minLength least => rw [Check.run, Check.checkLength_value]
  | fields plan => exact holds_evaluate kind mode plan value
  | reference plan => exact holds_evaluate kind mode plan value
  | items checks => exact holds_checkItems kind _ value

end ValueKind

/-! ## The visits of guarded plans -/

theorem Check.visitsElements_fit {check : Json → Checked} {visits : Json → List Visit}
    (h : ∀ element, ∀ visit ∈ visits element, visit.fits = true) (elements : List Json) :
    ∀ visit ∈ visitsElements check visits elements, visit.fits = true := by
  induction elements with
  | nil => exact fun _ hmem => (List.not_mem_nil hmem).elim
  | cons element rest ih =>
      rw [visitsElements]
      cases (check element).violation with
      | some violation => exact List.forall_mem_append.mpr ⟨h element, by simp⟩
      | none => exact List.forall_mem_append.mpr ⟨h element, ih⟩

mutual

/-- Every check that the evaluation of a guarded plan reaches fits its value. -/
theorem ObjectPlan.visits_fit (mode : Mode) :
    ∀ plan : ObjectPlan, plan.Guarded → ∀ value, ∀ visit ∈ plan.visits mode value,
      visit.fits = true
  | ⟨_, properties⟩, h, .object record => by
      rw [ObjectPlan.Guarded] at h
      rw [ObjectPlan.visits]
      exact PropertyPlan.visitsAll_fit mode properties h record record
  | ⟨_, _⟩, _, .null => fun _ hmem => (List.not_mem_nil hmem).elim
  | ⟨_, _⟩, _, .boolean _ => fun _ hmem => (List.not_mem_nil hmem).elim
  | ⟨_, _⟩, _, .number _ => fun _ hmem => (List.not_mem_nil hmem).elim
  | ⟨_, _⟩, _, .string _ => fun _ hmem => (List.not_mem_nil hmem).elim
  | ⟨_, _⟩, _, .array _ => fun _ hmem => (List.not_mem_nil hmem).elim

theorem PropertyPlan.visitsAll_fit (mode : Mode) :
    ∀ properties : List PropertyPlan, PropertyPlan.GuardedAll properties →
      ∀ record output, ∀ visit ∈ PropertyPlan.visitsAll mode properties record output,
        visit.fits = true
  | [], _, _, _ => fun _ hmem => (List.not_mem_nil hmem).elim
  | property :: rest, h, record, output => by
      rw [PropertyPlan.GuardedAll] at h
      have hproperty := PropertyPlan.visits_fit mode property h.1 record
      have hrest := PropertyPlan.visitsAll_fit mode rest h.2 record
        (PropertyPlan.evaluate mode property record output).1
      cases mode with
      | assertion =>
          rw [PropertyPlan.visitsAll]
          refine List.forall_mem_append.mpr ⟨hproperty, ?_⟩
          split
          · exact hrest
          · exact fun _ hmem => (List.not_mem_nil hmem).elim
      | verbose =>
          rw [PropertyPlan.visitsAll]
          refine List.forall_mem_append.mpr ⟨hproperty, ?_⟩
          split
          · exact hrest
          · exact hrest

theorem PropertyPlan.visits_fit (mode : Mode) :
    ∀ property : PropertyPlan, property.Guarded → ∀ record,
      ∀ visit ∈ property.visits mode record, visit.fits = true
  | ⟨key, required, transforms, checks⟩, h, record => by
      rw [PropertyPlan.Guarded] at h
      rw [PropertyPlan.visits]
      split
      · exact fun _ hmem => (List.not_mem_nil hmem).elim
      · exact Check.visitsAll_fit_of_guarded mode checks h _

/-- Checks behind one of the kind are reached by values of the kind alone. -/
theorem Check.visitsAll_fit_of_guarded (mode : Mode) :
    ∀ checks : List Check, Check.GuardedAll checks → ∀ value,
      ∀ visit ∈ Check.visitsAll mode checks value, visit.fits = true
  | .kind kind :: rest, h, value => by
      rw [Check.GuardedAll] at h
      rw [Check.visitsAll, Check.run, Check.require]
      refine List.forall_mem_append.mpr ⟨List.forall_mem_singleton.mpr rfl, ?_⟩
      cases hkind : kind.holds value with
      | false => exact fun _ hmem => (List.not_mem_nil hmem).elim
      | true => exact Check.visitsAll_fit mode kind rest h value hkind

theorem Check.visitsAll_fit (mode : Mode) (kind : ValueKind) :
    ∀ checks : List Check, Check.SuitAll kind checks → ∀ value, kind.holds value = true →
      ∀ visit ∈ Check.visitsAll mode checks value, visit.fits = true
  | [], _, _, _ => fun _ hmem => (List.not_mem_nil hmem).elim
  | check :: rest, h, value, hkind => by
      rw [Check.SuitAll] at h
      have hinside := Check.visitsInside_fit mode kind check h.1 value
      have hrest := Check.visitsAll_fit mode kind rest h.2 (Check.run mode check value).value
        ((kind.holds_run mode check value).trans hkind)
      rw [Check.visitsAll]
      refine List.forall_mem_append.mpr ⟨List.forall_mem_cons.mpr ⟨?_, hinside⟩, ?_⟩
      · exact Check.fits_of_suits h.1 hkind
      · split
        · exact fun _ hmem => (List.not_mem_nil hmem).elim
        · exact hrest

theorem Check.visitsInside_fit (mode : Mode) (kind : ValueKind) :
    ∀ check : Check, check.Suits kind → ∀ value, ∀ visit ∈ check.visitsInside mode value,
      visit.fits = true
  | .fields plan, h, value => by
      rw [Check.Suits] at h
      rw [Check.visitsInside]
      exact ObjectPlan.visits_fit mode plan h.2 value
  | .reference plan, h, value => by
      rw [Check.Suits] at h
      rw [Check.visitsInside]
      exact ObjectPlan.visits_fit mode plan h.2 value
  | .items checks, h, value => by
      rw [Check.Suits] at h
      cases value with
      | array elements =>
          rw [Check.visitsInside]
          exact Check.visitsElements_fit (Check.visitsAll_fit_of_guarded mode checks h.2) elements
      | _ => exact fun _ hmem => (List.not_mem_nil hmem).elim
  | .kind _, _, _ => fun _ hmem => (List.not_mem_nil hmem).elim
  | .integer, _, _ => fun _ hmem => (List.not_mem_nil hmem).elim
  | .startsWith _, _, _ => fun _ hmem => (List.not_mem_nil hmem).elim
  | .minLength _, _, _ => fun _ hmem => (List.not_mem_nil hmem).elim

end

/-! ## Compiled plans are guarded -/

namespace Check

theorem guardedAll_ofString (minLength : Option UInt64) (start : Option String) :
    GuardedAll (ofString minLength start) := by
  cases minLength <;> cases start <;> simp [ofString, GuardedAll, SuitAll, Suits]

theorem guardedAll_ofNumber (isInteger : Bool) : GuardedAll (ofNumber isInteger) := by
  cases isInteger <;> simp [ofNumber, GuardedAll, SuitAll, Suits]

theorem guardedAll_ofArray {items : List Check} (h : GuardedAll items)
    (minLength : Option UInt64) : GuardedAll (ofArray minLength items) := by
  cases minLength <;> simp [ofArray, GuardedAll, SuitAll, Suits, h]

end Check

namespace Schema

section Tree

variable {plan : String → ObjectPlan}

mutual

/-- The checks of a property are guarded if the plans of the types are. -/
theorem specChecks_guarded (h : ∀ target, (plan target).Guarded) (path : String) :
    ∀ spec : PropertySpec, Check.GuardedAll (specChecks plan path spec)
  | ⟨type, _, _⟩ => by
      rw [specChecks]
      exact typeChecks_guarded h path type

theorem typeChecks_guarded (h : ∀ target, (plan target).Guarded) (path : String) :
    ∀ type : PropertyType, Check.GuardedAll (typeChecks plan path type)
  | .string minLength start => Check.guardedAll_ofString minLength start
  | .number isInteger => Check.guardedAll_ofNumber isInteger
  | .boolean => by simp [typeChecks, Check.GuardedAll, Check.SuitAll]
  | .object properties => by
      have hproperties := propertyPlans_guarded h path properties
      simp [typeChecks, Check.ofObject, Check.GuardedAll, Check.SuitAll, Check.Suits,
        ObjectPlan.Guarded, hproperties]
  | .array minLength items => by
      rw [typeChecks]
      exact Check.guardedAll_ofArray (specChecks_guarded h (path ++ "[]") items) minLength
  | .named target => by
      simp [typeChecks, Check.ofReference, Check.GuardedAll, Check.SuitAll, Check.Suits, h target]

theorem propertyPlans_guarded (h : ∀ target, (plan target).Guarded) (path : String) :
    ∀ properties : List (String × PropertySpec),
      PropertyPlan.GuardedAll (propertyPlans plan path properties)
  | [] => trivial
  | (key, spec) :: rest => by
      rw [propertyPlans, PropertyPlan.GuardedAll, PropertyPlan.Guarded]
      exact ⟨specChecks_guarded h (path ++ "." ++ key) spec, propertyPlans_guarded h path rest⟩

end

end Tree

theorem planWithin_guarded (schema : Schema) (depth : Nat) (name : String) :
    (schema.planWithin depth name).Guarded := by
  induction depth generalizing name with
  | zero => trivial
  | succ depth ih =>
      rw [planWithin, ObjectPlan.Guarded]
      exact propertyPlans_guarded ih name _

theorem planOf_guarded (schema : Schema) (name : String) : (schema.planOf name).Guarded :=
  schema.planWithin_guarded schema.length name

/-- In a compiled plan no check is skipped. For every schema that compiles, each of its types,
both modes and every record, the checks that are reached, inside nested plans and array elements
as well, fit their values: the start of a text is asked of a string, a whole number of a number,
a least length of a string or an array, elements of an array and a plan of an object. So what
the evaluation does with other values does not matter. The record itself may be anything; if it
is no object, nothing is reached. -/
theorem compile_skips_nothing {schema : Schema} {compiled : CompiledSchema}
    (hcompile : schema.compile.outcome = .ok compiled) {name : String}
    (hname : name ∈ schema.names) :
    ∃ plan, compiled.get? name = some plan ∧ ∀ mode,
      (∀ record, ∀ visit ∈ plan.visits mode record, visit.fits = true) ∧
      (∀ members, plan.evaluate? mode (.object members) =
        some (plan.evaluate mode (.object members))) ∧
      (∀ record, ValueKind.object.holds record = false → plan.visits mode record = [] ∧
        plan.evaluate mode record = ⟨record, [.notObject]⟩) := by
  refine ⟨schema.planOf name, ?_, fun mode => ⟨?_, ?_, ?_⟩⟩
  · rw [get?_of_compile hcompile, if_pos hname]
  · exact (schema.planOf name).visits_fit mode (schema.planOf_guarded name)
  · intro members
    rw [ObjectPlan.evaluate?_object]
    exact Visit.ifFit_of_forall
      ((schema.planOf name).visits_fit mode (schema.planOf_guarded name) _) _
  · intro record hrecord
    cases schema.planOf name
    cases record with
    | object members => cases hrecord
    | _ => exact ⟨rfl, rfl⟩

theorem compile_skips_nothing_orders :
    ∃ compiled, orders.compile.outcome = .ok compiled ∧ "Order" ∈ orders.names ∧
      ∃ plan, compiled.get? "Order" = some plan ∧
        (∀ visit ∈ plan.visits .assertion (orderFor " Abe " [" Bo ", "C"]), visit.fits = true) ∧
        (plan.visits .assertion (orderFor " Abe " [" Bo ", "C"])).length = 16 ∧
        plan.evaluate? .assertion (orderFor " Abe " [" Bo ", "C"]) =
          some (plan.evaluate .assertion (orderFor " Abe " [" Bo ", "C"])) := by
  obtain ⟨compiled, hcompile⟩ := exists_compile_orders
  have hname : "Order" ∈ orders.names := by decide
  obtain ⟨plan, hget, hplan⟩ := compile_skips_nothing hcompile hname
  obtain ⟨hfit, hevaluate, -⟩ := hplan .assertion
  have hplan := hget.symm.trans (get?_of_compile hcompile "Order")
  rw [if_pos hname] at hplan
  cases hplan
  exact ⟨compiled, hcompile, hname, _, hget, hfit _, rfl, hevaluate _⟩

end Schema

end RecordSchema
