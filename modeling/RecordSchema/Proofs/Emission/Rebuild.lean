import RecordSchema.Emission.Plan
import RecordSchema.Proofs.Emission.Term
import RecordSchema.Proofs.Shared

/-!
# Plans from emitted code

`Term.plan?` says which plan the constructor calls of a term build, given the plans of
the statics. Like the emitted code it has two ways to a check of an object: a plan that
is built in place belongs there, and one that is cloned from a static is shared.

Main statement: the expression for a plan is read as a term that builds this plan,
`exists_term_planExpression`.
-/

namespace RecordSchema

namespace Emission

/-! ## The plan that a term builds -/

namespace Term

/-- The truth value of a word. -/
def flag? : String → Option Bool
  | "true" => some true
  | "false" => some false
  | _ => none

/-- The length that a decimal number gives, if 64 bits hold it. -/
def length? (text : String) : Option UInt64 :=
  let n := Nat.ofDigitChars 10 text.toList 0
  if text.toList.all Char.isDigit && n < UInt64.size then some (UInt64.ofNat n) else none

/-- The kind of value that a path names. -/
def kind? : String → Option ValueKind
  | "ValueKind::String" => some .string
  | "ValueKind::Number" => some .number
  | "ValueKind::Boolean" => some .boolean
  | "ValueKind::Object" => some .object
  | "ValueKind::Array" => some .array
  | _ => none

/-- The transform that a path names. -/
def transform? : Term → Option Transform
  | word "Transform::Trim" => some .trim
  | word "Transform::Lowercase" => some .lowercase
  | word "Transform::ToInteger" => some .toInteger
  | _ => none

mutual

/-- The plan that a term builds; `resolve` gives the plans of the statics. -/
def plan? (resolve : String → Option ObjectPlan) : Term → Option ObjectPlan
  | call "ObjectPlan::new" [literal name, vector properties] =>
    (properties? resolve properties).map (ObjectPlan.mk name)
  | _ => none

/-- The plans of properties that terms build. -/
def properties? (resolve : String → Option ObjectPlan) : List Term → Option (List PropertyPlan)
  | [] => some []
  | property :: rest => do
    let plan ← property? resolve property
    let plans ← properties? resolve rest
    return plan :: plans

/-- The plan of a property that a term builds. -/
def property? (resolve : String → Option ObjectPlan) : Term → Option PropertyPlan
  | call "PropertyPlan::new" [literal key, word required, vector transforms, vector checks] => do
    let required ← flag? required
    let transforms ← transforms.mapM transform?
    let checks ← checks? resolve checks
    return ⟨key, required, transforms, checks⟩
  | _ => none

/-- The checks that terms build. -/
def checks? (resolve : String → Option ObjectPlan) : List Term → Option (List Check)
  | [] => some []
  | check :: rest => do
    let check ← check? resolve check
    let checks ← checks? resolve rest
    return check :: checks

/-- The check that a term builds. A plan that is the value of a static is shared. -/
def check? (resolve : String → Option ObjectPlan) : Term → Option Check
  | word "Check::Integer" => some .integer
  | call "Check::Kind" [word kind] => (kind? kind).map .kind
  | call "Check::Prefix" [owned start] => some (.startsWith start)
  | call "Check::MinLength" [word length] => (length? length).map .minLength
  | call "Check::Fields" [call "Arc::new" [plan]] => (plan? resolve plan).map .fields
  | call "Check::Fields" [call "Arc::clone" [static name]] => (resolve name).map .reference
  | call "Check::Items" [call "Box::new" [call "ItemPlan::new" [vector checks]]] =>
    (checks? resolve checks).map .items
  | _ => none

end

end Term

/-! ## Words for the parts of a plan -/

theorem length?_toNat (length : UInt64) : Term.length? (toString length.toNat) = some length := by
  have hlist : (toString length.toNat).toList = Nat.toDigits 10 length.toNat := by
    rw [Nat.toString_eq_ofList_toDigits, String.toList_ofList]
  have hdigits : (Nat.toDigits 10 length.toNat).all Char.isDigit = true :=
    List.all_eq_true.mpr fun _ hc => Nat.isDigit_of_mem_toDigits (by decide) (by decide) hc
  have hlt : length.toNat < UInt64.size := length.toNat_lt
  rw [Term.length?, hlist, Nat.ofDigitChars_ten_toDigits, hdigits]
  simp [hlt]

theorem flag?_of_bool (flag : Bool) :
    Term.flag? (if flag then "true" else "false") = some flag := by
  cases flag <;> rfl

theorem kind?_kindWord (kind : ValueKind) : Term.kind? (kindWord kind) = some kind := by
  cases kind <;> rfl

theorem transform?_transformWord (transform : Transform) :
    Term.transform? (.word (transformWord transform)) = some transform := by
  cases transform <;> rfl

theorem mapM_transform? (transforms : List Transform) :
    (transforms.map fun transform => Term.word (transformWord transform)).mapM Term.transform? =
      some transforms := by
  induction transforms with
  | nil => rfl
  | cons transform rest ih =>
      rw [List.map_cons, List.mapM_cons, transform?_transformWord, ih]
      rfl

theorem readsAsItself_kindWord (kind : ValueKind) : ReadsAsItself (kindWord kind) := by
  cases kind <;> exact fun _ _ => rfl

theorem readsAsItself_transformWord (transform : Transform) :
    ReadsAsItself (transformWord transform) := by
  cases transform <;> exact fun _ _ => rfl

/-! ## The plan that is read from the expression for a plan -/

section Rebuild

variable {statics : Entries String} {resolve : String → Option ObjectPlan}

/-- The plan has a static, whose name is an identifier, and this static is known to
hold the plan. -/
def IsResolved (statics : Entries String) (resolve : String → Option ObjectPlan)
    (plan : ObjectPlan) : Prop :=
  ∃ static, statics.get? plan.name = some static ∧ static ≠ "" ∧
    (∀ c ∈ static.toList, CratePath.isTail c = true) ∧ resolve static = some plan

theorem readsAs_clone {static : String} (hne : static ≠ "")
    (h : ∀ c ∈ static.toList, CratePath.isTail c = true) :
    ReadsAs (Expression.call "Arc::clone" .inline [.word ("&*" ++ static)]).tokens
      (.call "Arc::clone" [.static static]) := by
  have htokens : tokens ("&*" ++ static) = [.symbol '&', .symbol '*', .word static] := by
    rw [tokens, String.toList_append]
    change .symbol '&' :: .symbol '*' :: tokens static = _
    rw [tokens_of_isTail hne h]
  apply readsAs_call (fun _ _ => rfl)
  apply ReadAs.cons _ readAs_nil
  rw [Expression.tokens, htokens]
  exact readsAs_static static

theorem readAs_transforms (transforms : List Transform) :
    ReadAs (transforms.map fun transform => .word (transformWord transform))
      (transforms.map fun transform => .word (transformWord transform)) := by
  induction transforms with
  | nil => exact readAs_nil
  | cons transform rest ih => exact ReadAs.cons (readsAsItself_transformWord transform) ih

mutual

/-- The expression for a plan is read as a term that builds the plan, where every plan
that it shares is resolved. -/
theorem exists_term_planExpression :
    ∀ plan : ObjectPlan, plan.AllShared (IsResolved statics resolve) →
      ∃ term, ReadsAs (planExpression statics plan).tokens term ∧ term.plan? resolve = some plan
  | ⟨name, properties⟩, h => by
      rw [ObjectPlan.AllShared] at h
      obtain ⟨terms, hread, hplans⟩ := exists_terms_propertyExpressions properties h
      refine ⟨.call "ObjectPlan::new" [.literal name, .vector terms], ?_, ?_⟩
      · rw [planExpression]
        apply readsAs_call (fun _ _ => rfl)
        exact ReadAs.cons (readsAs_literal name) (ReadAs.cons (readsAs_vector _ hread) readAs_nil)
      · rw [Term.plan?, hplans]
        rfl

theorem exists_terms_propertyExpressions :
    ∀ properties : List PropertyPlan,
      PropertyPlan.AllSharedIn (IsResolved statics resolve) properties →
      ∃ terms, ReadAs (propertyExpressions statics properties) terms ∧
        Term.properties? resolve terms = some properties
  | [], _ => ⟨[], readAs_nil, rfl⟩
  | property :: rest, h => by
      rw [PropertyPlan.AllSharedIn] at h
      obtain ⟨term, hread, hplan⟩ := exists_term_propertyExpression property h.1
      obtain ⟨terms, hreads, hplans⟩ := exists_terms_propertyExpressions rest h.2
      refine ⟨term :: terms, ?_, ?_⟩
      · rw [propertyExpressions]
        exact ReadAs.cons hread hreads
      · rw [Term.properties?, hplan, hplans]
        rfl

theorem exists_term_propertyExpression :
    ∀ property : PropertyPlan, property.AllShared (IsResolved statics resolve) →
      ∃ term, ReadsAs (propertyExpression statics property).tokens term ∧
        term.property? resolve = some property
  | ⟨key, required, transforms, checks⟩, h => by
      rw [PropertyPlan.AllShared] at h
      obtain ⟨terms, hreads, hchecks⟩ := exists_terms_checkExpressions checks h
      refine ⟨.call "PropertyPlan::new" [.literal key, .word (if required then "true" else "false"),
        .vector (transforms.map fun transform => .word (transformWord transform)),
        .vector terms], ?_, ?_⟩
      · rw [propertyExpression]
        apply readsAs_call (fun _ _ => rfl)
        have htransforms : ReadsAs (transformsExpression transforms).tokens _ :=
          readsAs_vector _ (readAs_transforms transforms)
        exact ReadAs.cons (readsAs_literal key) (ReadAs.cons (readsAsItself_of_bool required)
          (ReadAs.cons htransforms (ReadAs.cons (readsAs_vector _ hreads) readAs_nil)))
      · rw [Term.property?, flag?_of_bool, mapM_transform?, hchecks]
        rfl

theorem exists_terms_checkExpressions :
    ∀ checks : List Check, Check.AllSharedIn (IsResolved statics resolve) checks →
      ∃ terms, ReadAs (checkExpressions statics checks) terms ∧
        Term.checks? resolve terms = some checks
  | [], _ => ⟨[], readAs_nil, rfl⟩
  | check :: rest, h => by
      rw [Check.AllSharedIn] at h
      obtain ⟨term, hread, hcheck⟩ := exists_term_checkExpression check h.1
      obtain ⟨terms, hreads, hchecks⟩ := exists_terms_checkExpressions rest h.2
      refine ⟨term :: terms, ?_, ?_⟩
      · rw [checkExpressions]
        exact ReadAs.cons hread hreads
      · rw [Term.checks?, hcheck, hchecks]
        rfl

theorem exists_term_checkExpression :
    ∀ check : Check, check.AllShared (IsResolved statics resolve) →
      ∃ term, ReadsAs (checkExpression statics check).tokens term ∧
        term.check? resolve = some check
  | .kind kind, _ => by
      refine ⟨.call "Check::Kind" [.word (kindWord kind)], ?_, ?_⟩
      · rw [checkExpression]
        apply readsAs_call (fun _ _ => rfl)
        exact ReadAs.cons (readsAsItself_kindWord kind) readAs_nil
      · rw [Term.check?, kind?_kindWord]
        rfl
  | .integer, _ => ⟨.word "Check::Integer", fun _ _ => rfl, by rw [Term.check?]⟩
  | .startsWith start, _ => by
      refine ⟨.call "Check::Prefix" [.owned start], ?_, by rw [Term.check?]⟩
      rw [checkExpression]
      apply readsAs_call (fun _ _ => rfl)
      exact ReadAs.cons (readsAs_owned start) readAs_nil
  | .minLength length, _ => by
      refine ⟨.call "Check::MinLength" [.word (toString length.toNat)], ?_, ?_⟩
      · rw [checkExpression]
        apply readsAs_call (fun _ _ => rfl)
        exact ReadAs.cons (readsAsItself_toNat length.toNat) readAs_nil
      · rw [Term.check?, length?_toNat]
        rfl
  | .fields plan, h => by
      rw [Check.AllShared] at h
      obtain ⟨term, hread, hplan⟩ := exists_term_planExpression plan h
      refine ⟨.call "Check::Fields" [.call "Arc::new" [term]], ?_, ?_⟩
      · rw [checkExpression]
        apply readsAs_call (fun _ _ => rfl)
        refine ReadAs.cons (readsAs_call (fun _ _ => rfl) _ ?_) readAs_nil
        exact ReadAs.cons hread readAs_nil
      · rw [Term.check?, hplan]
        rfl
  | .reference plan, h => by
      rw [Check.AllShared] at h
      obtain ⟨static, hget, hne, htail, hresolve⟩ := h
      refine ⟨.call "Check::Fields" [.call "Arc::clone" [.static static]], ?_, ?_⟩
      · rw [checkExpression, hget]
        apply readsAs_call (fun _ _ => rfl)
        exact ReadAs.cons (readsAs_clone hne htail) readAs_nil
      · rw [Term.check?, hresolve]
        rfl
  | .items checks, h => by
      rw [Check.AllShared] at h
      obtain ⟨terms, hreads, hchecks⟩ := exists_terms_checkExpressions checks h
      refine ⟨.call "Check::Items" [.call "Box::new" [.call "ItemPlan::new" [.vector terms]]],
        ?_, ?_⟩
      · rw [checkExpression]
        apply readsAs_call (fun _ _ => rfl)
        refine ReadAs.cons (readsAs_call (fun _ _ => rfl) _ ?_) readAs_nil
        refine ReadAs.cons (readsAs_call (fun _ _ => rfl) _ ?_) readAs_nil
        exact ReadAs.cons (readsAs_vector _ hreads) readAs_nil
      · rw [Term.check?, hchecks]
        rfl

end

end Rebuild

end Emission

end RecordSchema
