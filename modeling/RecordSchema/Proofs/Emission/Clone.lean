import RecordSchema.Proofs.Emission.Declaration
import RecordSchema.Proofs.PlanOf

/-!
# Statics that are cloned

The statics that emitted code clones are read off its tokens: `clones` lists the words that
stand directly behind `Arc::clone(&*`. A token that can stand in no such place keeps apart
what is in front of it and what is behind it, `clones_append_cons`, so that the clones of a
text are those of its pieces.

Main statements: the static of a type clones the statics of the types it refers to, one for
each reference and in order, `clones_initialiserOf`, and an emitted module clones nothing
else, `clones_of_emit`.
-/

namespace RecordSchema

namespace Emission

/-- What stands in front of the name of a static that is cloned. -/
def cloneMark : List Token :=
  tokens "Arc::clone(&*"

/-- The static that is cloned at the start of some tokens. -/
def cloneAt? (tokens : List Token) : Option String :=
  match tokens.dropPrefix? cloneMark with
  | some (.word static :: _) => some static
  | _ => none

/-- The statics that are cloned among tokens, in order. -/
def clones : List Token → List String
  | [] => []
  | token :: rest => (cloneAt? (token :: rest)).toList ++ clones rest

@[simp] theorem clones_nil : clones [] = [] := rfl

theorem clones_cons (token : Token) (rest : List Token) :
    clones (token :: rest) = (cloneAt? (token :: rest)).toList ++ clones rest := rfl

/-! ## Clones of a text that is put together -/

theorem cloneMark_eq : cloneMark = [.word "Arc", .symbol ':', .symbol ':', .word "clone",
    .symbol '(', .symbol '&', .symbol '*'] := by
  decide +kernel

theorem cloneAt?_eq_some_iff {tokens : List Token} {static : String} :
    cloneAt? tokens = some static ↔ cloneMark ++ [.word static] <+: tokens := by
  rw [cloneAt?]
  constructor
  · intro h
    split at h
    · case h_1 name rest hdrop =>
        cases h
        obtain ⟨mark, rfl, hmark⟩ := List.dropPrefix?_eq_some_iff.mp hdrop
        rw [eq_of_beq hmark]
        exact ⟨rest, by simp⟩
    · cases h
  · rintro ⟨rest, rfl⟩
    rw [List.append_assoc, List.dropPrefix?_append_of_beq _ (beq_self_eq_true _)]
    rfl

/-- The token stands in no place where a static is cloned. -/
def IsApart (token : Token) : Prop :=
  ∀ static, token ∉ cloneMark ++ [.word static]

theorem isApart_symbol {c : Char} (h : c ∉ [':', '(', '&', '*']) : IsApart (.symbol c) := by
  intro static
  rw [cloneMark_eq]
  simpa using h

theorem cloneAt?_append_cons {token : Token} (h : IsApart token) (front rest : List Token) :
    cloneAt? (front ++ token :: rest) = cloneAt? front := by
  ext static
  rw [cloneAt?_eq_some_iff, cloneAt?_eq_some_iff]
  refine ⟨fun hprefix => ?_, fun hprefix => hprefix.trans (List.prefix_append _ _)⟩
  rcases List.prefix_or_prefix_of_prefix hprefix (List.prefix_append front _) with hfront | hfront
  · exact hfront
  · -- behind `front` the place would go on with the token that stands apart
    obtain ⟨behind, hbehind⟩ := hfront
    rw [← hbehind] at hprefix ⊢
    rw [List.prefix_append_right_inj] at hprefix
    cases behind with
    | nil => rw [List.append_nil]
    | cons first others =>
        obtain ⟨rfl, -⟩ := List.cons_prefix_cons.mp hprefix
        exact absurd (hbehind ▸ by simp) (h static)

/-- What is cloned on the two sides of a token that stands apart. -/
theorem clones_append_cons {token : Token} (h : IsApart token) (front rest : List Token) :
    clones (front ++ token :: rest) = clones front ++ clones rest := by
  induction front with
  | nil =>
      have hnone : cloneAt? (token :: rest) = none := cloneAt?_append_cons h [] rest
      rw [List.nil_append, clones_cons, hnone]
      rfl
  | cons first front ih =>
      have hfirst := cloneAt?_append_cons h (first :: front) rest
      rw [List.cons_append] at hfirst
      rw [List.cons_append, clones_cons, clones_cons, hfirst, ih, List.append_assoc]

/-- Nothing is cloned where no star is. -/
theorem clones_eq_nil_of_not_mem {tokens : List Token} (h : .symbol '*' ∉ tokens) :
    clones tokens = [] := by
  induction tokens with
  | nil => rfl
  | cons token rest ih =>
      have hnone : cloneAt? (token :: rest) = none := by
        rw [Option.eq_none_iff_forall_ne_some]
        intro static hstatic
        refine h ((cloneAt?_eq_some_iff.mp hstatic).mem ?_)
        rw [cloneMark_eq]
        simp
      rw [clones_cons, hnone, ih fun hmem => h (List.mem_cons_of_mem _ hmem)]
      rfl

/-- Nothing is cloned in a text without a star that ends with a token that stands apart. -/
theorem clones_append_of_not_mem {front : List Token} (hstar : .symbol '*' ∉ front)
    {last : Token} (hlast : front.getLast? = some last) (hapart : IsApart last)
    (rest : List Token) : clones (front ++ rest) = clones rest := by
  obtain ⟨others, rfl⟩ := List.getLast?_eq_some_iff.mp hlast
  rw [List.append_assoc, List.singleton_append, clones_append_cons hapart,
    clones_eq_nil_of_not_mem fun hmem => hstar (List.mem_append_left _ hmem), List.nil_append]

/-! ## Clones of expressions -/

namespace Expression

/-- The statics that an expression clones. -/
def clones (expression : Expression) : List String :=
  Emission.clones expression.tokens

/-- A call of the head clones only what its arguments clone. -/
def IsPlainHead (head : String) : Prop :=
  ∀ rest, Emission.clones (Emission.tokens head ++ .symbol '(' :: rest) = Emission.clones rest

theorem isApart_comma : IsApart (.symbol ',') := isApart_symbol (by decide)

theorem clones_tailTokens (expressions : List Expression) {token : Token} (h : IsApart token)
    (front rest : List Token) :
    Emission.clones (front ++ (tailTokens expressions ++ token :: rest)) =
      Emission.clones front ++ (expressions.flatMap clones ++ Emission.clones rest) := by
  induction expressions generalizing front with
  | nil => exact clones_append_cons h front rest
  | cons expression others ih =>
      rw [tailTokens, List.cons_append, List.cons_append, clones_append_cons isApart_comma,
        List.append_assoc, ih, List.flatMap_cons, List.append_assoc]
      rfl

theorem clones_inlineTokens (expressions : List Expression) {token : Token} (h : IsApart token)
    (rest : List Token) :
    Emission.clones (inlineTokens expressions ++ token :: rest) =
      expressions.flatMap clones ++ Emission.clones rest := by
  cases expressions with
  | nil => exact clones_append_cons h [] rest
  | cons expression others =>
      rw [inlineTokens, List.append_assoc, clones_tailTokens others h, List.flatMap_cons,
        List.append_assoc]
      rfl

theorem clones_blockTokens (expressions : List Expression) {token : Token} (h : IsApart token)
    (rest : List Token) :
    Emission.clones (blockTokens expressions ++ token :: rest) =
      expressions.flatMap clones ++ Emission.clones rest := by
  induction expressions with
  | nil => exact clones_append_cons h [] rest
  | cons expression others ih =>
      rw [blockTokens, List.append_assoc, List.cons_append, clones_append_cons isApart_comma, ih,
        List.flatMap_cons, List.append_assoc]
      rfl

theorem clones_call {head : String} (hhead : IsPlainHead head) (layout : Layout)
    (arguments : List Expression) :
    (call head layout arguments).clones = arguments.flatMap clones := by
  have hclose : IsApart (.symbol ')') := isApart_symbol (by decide)
  rw [clones]
  cases layout with
  | inline =>
      rw [tokens, List.append_assoc, List.cons_append, hhead,
        clones_inlineTokens arguments hclose []]
      exact List.append_nil _
  | block =>
      rw [tokens, List.append_assoc, List.cons_append, hhead,
        clones_blockTokens arguments hclose []]
      exact List.append_nil _

theorem clones_vector (layout : Layout) (items : List Expression) :
    (vector layout items).clones = items.flatMap clones := by
  have hopen : ∀ rest, Emission.clones (.word "vec" :: .symbol '!' :: .symbol '[' :: rest) =
      Emission.clones rest := fun _ => rfl
  have hclose : IsApart (.symbol ']') := isApart_symbol (by decide)
  rw [clones]
  cases layout with
  | inline =>
      rw [tokens, List.cons_append, List.cons_append, List.cons_append, hopen,
        clones_inlineTokens items hclose []]
      exact List.append_nil _
  | block =>
      rw [tokens, List.cons_append, List.cons_append, List.cons_append, hopen,
        clones_blockTokens items hclose []]
      exact List.append_nil _

theorem clones_literal (text : String) : (literal text).clones = [] := rfl

theorem clones_word_of_isTail {text : String} (hne : text ≠ "")
    (h : ∀ c ∈ text.toList, CratePath.isTail c = true) : (word text).clones = [] := by
  rw [clones, tokens, tokens_of_isTail hne h]
  exact clones_eq_nil_of_not_mem (by simp)

theorem clones_clone {static : String} (hne : static ≠ "")
    (h : ∀ c ∈ static.toList, CratePath.isTail c = true) :
    (call "Arc::clone" .inline [.word ("&*" ++ static)]).clones = [static] := by
  have hstatic : Emission.tokens ("&*" ++ static) = [.symbol '&', .symbol '*', .word static] := by
    rw [Emission.tokens, String.toList_append]
    change .symbol '&' :: .symbol '*' :: Emission.tokens static = _
    rw [tokens_of_isTail hne h]
  have htokens : (call "Arc::clone" .inline [.word ("&*" ++ static)]).tokens =
      cloneMark ++ [.word static, .symbol ')'] := by
    rw [tokens, inlineTokens, tailTokens, tokens, hstatic]
    rfl
  have hfirst : cloneAt? (cloneMark ++ [.word static, .symbol ')']) = some static :=
    cloneAt?_eq_some_iff.mpr ⟨[.symbol ')'], by rw [List.append_assoc]; rfl⟩
  have hothers : ∀ rest, Emission.clones (.symbol ':' :: .symbol ':' :: .word "clone" ::
      .symbol '(' :: .symbol '&' :: .symbol '*' :: rest) = Emission.clones rest := fun _ => rfl
  rw [cloneMark_eq] at hfirst
  rw [clones, htokens, cloneMark_eq, List.cons_append, clones_cons, ← List.cons_append, hfirst]
  simp only [List.cons_append, List.nil_append]
  rw [hothers, clones_eq_nil_of_not_mem (by simp)]
  rfl

end Expression

section Plans

variable {statics : Entries String}

/-- The statics that checks clone. -/
def checkClones (statics : Entries String) (checks : List Check) : List String :=
  (checkExpressions statics checks).flatMap Expression.clones

theorem checkClones_nil : checkClones statics [] = [] := by
  rw [checkClones, checkExpressions, List.flatMap_nil]

theorem checkClones_cons (check : Check) (rest : List Check) :
    checkClones statics (check :: rest) =
      (checkExpression statics check).clones ++ checkClones statics rest := by
  rw [checkClones, checkExpressions, List.flatMap_cons, ← checkClones]

theorem clones_transformsExpression (transforms : List Transform) :
    (transformsExpression transforms).clones = [] := by
  rw [transformsExpression, Expression.clones_vector, List.flatMap_map]
  apply List.flatMap_eq_nil_iff.mpr
  intro transform _
  cases transform <;> rfl

theorem clones_planExpression (name : String) (properties : List PropertyPlan) :
    (planExpression statics ⟨name, properties⟩).clones =
      (propertyExpressions statics properties).flatMap Expression.clones := by
  rw [planExpression, Expression.clones_call fun _ => rfl]
  simp only [List.flatMap_cons, List.flatMap_nil, Expression.clones_literal,
    Expression.clones_vector, List.nil_append, List.append_nil]

theorem clones_propertyExpression (key : String) (required : Bool) (transforms : List Transform)
    (checks : List Check) :
    (propertyExpression statics ⟨key, required, transforms, checks⟩).clones =
      checkClones statics checks := by
  have hrequired : (Expression.word (if required then "true" else "false")).clones = [] := by
    cases required <;> rfl
  rw [propertyExpression, Expression.clones_call fun _ => rfl, checkClones]
  simp only [List.flatMap_cons, List.flatMap_nil, Expression.clones_literal, hrequired,
    clones_transformsExpression, Expression.clones_vector, List.nil_append, List.append_nil]

theorem clones_kind (kind : ValueKind) : (checkExpression statics (.kind kind)).clones = [] := by
  rw [checkExpression]
  cases kind <;> rfl

theorem clones_integer : (checkExpression statics .integer).clones = [] := by
  rw [checkExpression]
  rfl

theorem clones_startsWith (start : String) :
    (checkExpression statics (.startsWith start)).clones = [] := by
  rw [checkExpression, Expression.clones_call fun _ => rfl]
  rfl

theorem clones_minLength (length : UInt64) :
    (checkExpression statics (.minLength length)).clones = [] := by
  have hlength := Expression.clones_word_of_isTail (toString_ne_empty length.toNat)
    (isTail_of_mem_toString length.toNat)
  rw [checkExpression, Expression.clones_call fun _ => rfl, List.flatMap_cons, List.flatMap_nil,
    List.append_nil, hlength]

theorem clones_fields (plan : ObjectPlan) :
    (checkExpression statics (.fields plan)).clones = (planExpression statics plan).clones := by
  rw [checkExpression, Expression.clones_call fun _ => rfl]
  simp only [List.flatMap_cons, List.flatMap_nil, List.append_nil]
  rw [Expression.clones_call fun _ => rfl, List.flatMap_cons, List.flatMap_nil, List.append_nil]

theorem clones_reference {plan : ObjectPlan} {static : String}
    (hget : statics.get? plan.name = some static) (hne : static ≠ "")
    (h : ∀ c ∈ static.toList, CratePath.isTail c = true) :
    (checkExpression statics (.reference plan)).clones = [static] := by
  rw [checkExpression, hget, Expression.clones_call fun _ => rfl, List.flatMap_cons,
    List.flatMap_nil, List.append_nil]
  exact Expression.clones_clone hne h

theorem clones_items (checks : List Check) :
    (checkExpression statics (.items checks)).clones = checkClones statics checks := by
  rw [checkExpression, Expression.clones_call fun _ => rfl, List.flatMap_cons, List.flatMap_nil,
    List.append_nil, Expression.clones_call fun _ => rfl, List.flatMap_cons, List.flatMap_nil,
    List.append_nil, Expression.clones_call fun _ => rfl, List.flatMap_cons, List.flatMap_nil,
    List.append_nil, Expression.clones_vector, checkClones]

/-! ## Clones for the references of a type -/

/-- The statics of the types that references name. -/
def referenceStatics (references : List Reference) : List String :=
  references.map fun reference => (TypeNames.of reference.target).static

/-- The plan for a type is held by the static of the type. -/
def IsHeld (statics : Entries String) (plan : String → ObjectPlan) (target : String) : Prop :=
  statics.get? (plan target).name = some (TypeNames.of target).static

variable {plan : String → ObjectPlan}

mutual

/-- The checks of a property clone the statics of the types that its references name,
whatever the path is under which these are listed. -/
theorem checkClones_specChecks (path path' : String) :
    ∀ spec : PropertySpec, (∀ target, spec.type.Mentions target → IsHeld statics plan target) →
      checkClones statics (Schema.specChecks plan path spec) =
        referenceStatics (PropertySet.specReferences path' spec)
  | ⟨type, _, _⟩, h => by
      rw [Schema.specChecks, PropertySet.specReferences]
      exact checkClones_typeChecks path path' type h

theorem checkClones_typeChecks (path path' : String) :
    ∀ type : PropertyType, (∀ target, type.Mentions target → IsHeld statics plan target) →
      checkClones statics (Schema.typeChecks plan path type) =
        referenceStatics (PropertySet.typeReferences path' type)
  | .string minLength start, _ => by
      rw [Schema.typeChecks, PropertySet.typeReferences]
      cases minLength <;> cases start <;>
        simp [Check.ofString, checkClones_cons, checkClones_nil, clones_kind, clones_startsWith,
          clones_minLength, referenceStatics]
  | .number isInteger, _ => by
      rw [Schema.typeChecks, PropertySet.typeReferences]
      cases isInteger <;>
        simp [Check.ofNumber, checkClones_cons, checkClones_nil, clones_kind, clones_integer,
          referenceStatics]
  | .boolean, _ => by
      rw [Schema.typeChecks, PropertySet.typeReferences, checkClones_cons, checkClones_nil,
        clones_kind]
      rfl
  | .object properties, h => by
      have hproperties := clones_propertyPlans path path' properties fun target hmentions =>
        h target (PropertyType.mentions_object_iff.mpr hmentions)
      rw [Schema.typeChecks, PropertySet.typeReferences, Check.ofObject, checkClones_cons,
        clones_kind, checkClones_cons, clones_fields, clones_planExpression, hproperties,
        checkClones_nil, List.append_nil, List.nil_append]
  | .array minLength items, h => by
      have hitems := checkClones_specChecks (path ++ "[]") (path' ++ "[]") items
        fun target hmentions => h target (.array hmentions)
      rw [Schema.typeChecks, PropertySet.typeReferences, ← hitems]
      cases minLength <;>
        simp [Check.ofArray, checkClones_cons, checkClones_nil, clones_kind, clones_minLength,
          clones_items]
  | .named name, h => by
      have hreference := clones_reference (h name .named) (TypeNames.static_ne_empty name)
        (TypeNames.isTail_of_mem_static name)
      rw [Schema.typeChecks, PropertySet.typeReferences, Check.ofReference, checkClones_cons,
        clones_kind, checkClones_cons, hreference, checkClones_nil]
      rfl

theorem clones_propertyPlans (path path' : String) :
    ∀ properties : List (String × PropertySpec),
      (∀ target, PropertySet.Mentions properties target → IsHeld statics plan target) →
      (propertyExpressions statics (Schema.propertyPlans plan path properties)).flatMap
          Expression.clones =
        referenceStatics (PropertySet.referencesIn path' properties)
  | [], _ => by
      rw [Schema.propertyPlans, propertyExpressions, PropertySet.referencesIn]
      rfl
  | (key, spec) :: rest, h => by
      have hspec := checkClones_specChecks (path ++ "." ++ key)
        (if path' = "" then key else path' ++ "." ++ key) spec fun target hmentions =>
          h target (PropertySet.mentions_cons.mpr (.inl hmentions))
      have hrest := clones_propertyPlans path path' rest fun target hmentions =>
        h target (PropertySet.mentions_cons.mpr (.inr hmentions))
      rw [Schema.propertyPlans, propertyExpressions, PropertySet.referencesIn, List.flatMap_cons,
        clones_propertyExpression, hspec, hrest, referenceStatics,
        referenceStatics, referenceStatics, List.map_append]

end

end Plans

/-- The static of a type clones the statics of the types that it refers to, one for each
reference and in order. -/
theorem clones_initialiserOf {schema : Schema} (hclosed : schema.Closed)
    (hacyclic : schema.Acyclic) {name : String} {properties : PropertySet}
    (hget : schema.get? name = some properties) :
    clones (initialiserOf (staticsOf schema.names) (schema.planOf name)).tokens =
      referenceStatics properties.references := by
  have hheld : ∀ target, PropertySet.Mentions properties target →
      IsHeld (staticsOf schema.names) schema.planOf target := by
    intro target hmentions
    rw [IsHeld, Schema.planOf_name]
    exact get?_staticsOf (hclosed.target_mem_names ⟨properties, hget, hmentions⟩)
  rw [initialiserOf, ← Expression.clones, Expression.clones_call fun _ => rfl, List.flatMap_cons,
    List.flatMap_nil, List.append_nil, Schema.planOf_eq hclosed hacyclic hget,
    clones_planExpression]
  exact clones_propertyPlans name "" properties hheld

/-! ## Clones of a module -/

/-- The statics that a text clones. -/
def clonesIn (text : List Char) : List String :=
  clones (tokensFrom .code text)

/-- A text without a star that ends with a token that stands apart is passed over. -/
theorem clonesIn_of_not_mem (text : String) (last : Token)
    (hsettled : (readThrough .code text.toList).1 = .code) (hstar : .symbol '*' ∉ tokens text)
    (hlast : (tokens text).getLast? = some last) (hapart : IsApart last) (rest : List Char) :
    clonesIn (text.toList ++ rest) = clonesIn rest := by
  rw [clonesIn, tokensFrom_of_settled hsettled, clones_append_of_not_mem hstar hlast hapart,
    clonesIn]

theorem isApart_semicolon : IsApart (.symbol ';') := isApart_symbol (by decide)

theorem isApart_brace : IsApart (.symbol '\x7d') := isApart_symbol (by decide)

theorem clonesIn_headerText (rest : List Char) :
    clonesIn (headerText.toList ++ rest) = clonesIn rest := by
  have htokens : tokens headerText = [] := by decide +kernel
  rw [clonesIn, tokensFrom_of_settled (by decide +kernel), htokens, List.nil_append, clonesIn]

theorem star_not_mem_crate {crate : String} (hcrate : CratePath.isValid crate = true) :
    .symbol '*' ∉ tokens crate := by
  intro hmem
  have hstar := (mem_of_symbol_mem (isPathChar_of_isValid hcrate) '*').1 hmem
  rcases of_mem_of_isValid hcrate hstar with heq | htail
  · exact absurd heq (by decide)
  · exact absurd htail (by decide)

/-- An import from a crate clones nothing. -/
theorem clonesIn_use {crate : String} (hcrate : CratePath.isValid crate = true) (path : String)
    (hhead : path.toList.head? = some ':') (hsettled : (readThrough .code path.toList).1 = .code)
    (hstar : .symbol '*' ∉ tokens path) (hlast : (tokens path).getLast? = some (.symbol ';'))
    (rest : List Char) :
    clonesIn ("use ".toList ++ (crate.toList ++ (path.toList ++ rest))) = clonesIn rest := by
  have huse : ∀ follows, tokensFrom .code ("use ".toList ++ follows) =
      .word "use" :: tokensFrom .code follows := fun _ => rfl
  have hpath : tokensFrom .code (crate.toList ++ (path.toList ++ rest)) =
      tokens crate ++ (tokens path ++ tokensFrom .code rest) := by
    obtain ⟨others, hlist⟩ := List.head?_eq_some_iff.mp hhead
    have hcolon := (tokensFrom_path (c := ':') (by decide) crate.toList (others ++ rest)
      (isPathChar_of_isValid hcrate)).1
    rw [← List.cons_append, ← hlist, tokensFrom_of_settled hsettled] at hcolon
    exact hcolon
  have hfront : .symbol '*' ∉ .word "use" :: (tokens crate ++ tokens path) := by
    simp [star_not_mem_crate hcrate, hstar]
  have hend : (.word "use" :: (tokens crate ++ tokens path)).getLast? = some (.symbol ';') := by
    rw [← List.cons_append, List.getLast?_append, hlast]
    rfl
  rw [clonesIn, huse, hpath, ← List.append_assoc, ← List.cons_append,
    clones_append_of_not_mem hfront hend isApart_semicolon, clonesIn]

theorem clonesIn_importsText {crate : String} (hcrate : CratePath.isValid crate = true)
    (rest : List Char) :
    clonesIn ((importsText crate).toList ++ rest) = clonesIn rest := by
  have hallow := clonesIn_of_not_mem "#[allow(unused_imports)]\n" (.symbol ']')
    (by decide +kernel) (by decide +kernel) (by decide +kernel) (isApart_symbol (by decide))
  have hsync := clonesIn_of_not_mem "use std::sync::\x7bArc, LazyLock\x7d;\n\n" (.symbol ';')
    (by decide +kernel) (by decide +kernel) (by decide +kernel) isApart_semicolon
  have hvalue := clonesIn_of_not_mem "use serde_json::Value;\n\n" (.symbol ';')
    (by decide +kernel) (by decide +kernel) (by decide +kernel) isApart_semicolon
  have hcompiler := clonesIn_use hcrate
    "::compiler::\x7bCheck, ItemPlan, ObjectPlan, PropertyPlan, ValueKind\x7d;\n"
    (by decide) (by decide +kernel) (by decide +kernel) (by decide +kernel)
  have hruntime := clonesIn_use hcrate
    "::runtime::\x7bOutcome, ValidateOptions, ValidationFailure\x7d;\n"
    (by decide) (by decide +kernel) (by decide +kernel) (by decide +kernel)
  have hschema := clonesIn_use hcrate "::schema::Transform;\n"
    (by decide) (by decide +kernel) (by decide +kernel) (by decide +kernel)
  unfold importsText
  simp only [String.toList_append, List.append_assoc]
  rw [hallow, hsync, hallow, hvalue, hallow, hcompiler, hallow, hruntime, hallow, hschema]

section Types

variable {crate : String} {statics : Entries String} {plan : ObjectPlan}

theorem clonesIn_staticText
    (hwords : (initialiserOf statics plan).AllWords Expression.IsPath) (rest : List Char) :
    clonesIn ((staticText statics (TypeNames.of plan.name).static plan).toList ++ rest) =
      (initialiserOf statics plan).clones ++ clonesIn rest := by
  have hstar : .symbol '*' ∉ .word "static" :: .word (TypeNames.of plan.name).static ::
      staticSignature := by
    have hsignature : .symbol '*' ∉ staticSignature := by decide +kernel
    simpa using hsignature
  have hlast : (.word "static" :: .word (TypeNames.of plan.name).static ::
      staticSignature).getLast? = some (.symbol '\x7b') := by
    rw [List.getLast?_cons_cons, List.getLast?_cons, isSignature_staticSignature.1]
    rfl
  have hclose : ∀ follows, clones (.symbol ')' :: .symbol ';' :: follows) = clones follows :=
    fun _ => rfl
  rw [clonesIn, tokensFrom_staticText (TypeNames.static_ne_empty plan.name)
      (TypeNames.isTail_of_mem_static plan.name) hwords, ← List.cons_append, ← List.cons_append,
    clones_append_of_not_mem hstar hlast (isApart_symbol (by decide)),
    clones_append_cons isApart_brace, hclose, clonesIn]
  rfl

theorem star_not_mem_handover (hcrate : CratePath.isValid crate = true) (static : String) :
    .symbol '*' ∉ handover crate static := by
  have hcall : .symbol '*' ∉ tokens "::runtime::validate(&" := by decide +kernel
  simp [handover, (tokensFrom_runtimeCall hcrate).1, star_not_mem_crate hcrate, hcall]

theorem clonesIn_routineText (hcrate : CratePath.isValid crate = true) {typeName : String}
    (htypeName : '\n' ∉ typeName.toList) (name : String) (rest : List Char) :
    clonesIn ((routineText crate (.of name) typeName).toList ++ rest) = clonesIn rest := by
  have hfront : .symbol '*' ∉ .word "pub" :: .word "fn" :: .word (TypeNames.of name).routine ::
      (routineSignature ++ handover crate (TypeNames.of name).static) := by
    have hsignature : .symbol '*' ∉ routineSignature := by decide +kernel
    simp [hsignature, star_not_mem_handover hcrate]
  rw [clonesIn, tokensFrom_routineText hcrate htypeName, ← List.append_assoc, ← List.cons_append,
    ← List.cons_append, ← List.cons_append, clones_append_cons isApart_brace,
    clones_eq_nil_of_not_mem hfront, List.nil_append, clonesIn]

theorem clonesIn_typeTexts (hcrate : CratePath.isValid crate = true)
    (hstatics : NamesStatics statics) {plans : List ObjectPlan}
    (hplans : ∀ plan ∈ plans, '\n' ∉ plan.name.toList) :
    clonesIn (String.join (plans.map fun plan =>
        typeText crate statics plan (.of plan.name))).toList =
      plans.flatMap fun plan => (initialiserOf statics plan).clones := by
  have hbreak : ∀ follows, clonesIn ("\n".toList ++ follows) = clonesIn follows := fun _ => rfl
  induction plans with
  | nil => rfl
  | cons plan rest ih =>
      obtain ⟨hplan, hrest⟩ := List.forall_mem_cons.mp hplans
      rw [List.map_cons, String.join_cons, typeText]
      simp only [String.toList_append, List.append_assoc]
      rw [hbreak, clonesIn_staticText (allWords_initialiserOf hstatics plan), hbreak,
        clonesIn_routineText hcrate hplan, ih hrest, List.flatMap_cons]

end Types

/-- An emitted module clones what the initialisers of its statics clone. -/
theorem clones_of_emit {compiled : CompiledSchema} {options : EmitOptions} {text : String}
    (hcrate : CratePath.isValid options.runtimeCrate = true)
    (hnames : ∀ name ∈ compiled.typeNames, '\n' ∉ name.toList)
    (hemit : (compiled.emit options).outcome = .ok text) :
    clones (tokens text) = compiled.plans.flatMap fun plan =>
      (initialiserOf (staticsOf compiled.typeNames) plan).clones := by
  have hplans : ∀ plan ∈ compiled.plans, '\n' ∉ plan.name.toList := fun plan hplan =>
    hnames plan.name (List.mem_map_of_mem hplan)
  have htypes := clonesIn_typeTexts hcrate (namesStatics_staticsOf compiled.typeNames) hplans
  have hheader : ∀ rest, clonesIn ((if options.header then headerText else "").toList ++ rest) =
      clonesIn rest := by
    intro rest
    cases options.header with
    | true => exact clonesIn_headerText rest
    | false => rfl
  rw [(CompiledSchema.emit_eq_ok_iff.mp hemit).2, tokens, ← clonesIn, String.toList_append,
    String.toList_append, List.append_assoc, hheader, clonesIn_importsText hcrate]
  exact htypes

end Emission

end RecordSchema
