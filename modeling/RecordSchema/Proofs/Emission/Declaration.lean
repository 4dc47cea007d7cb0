import Mathlib.Data.List.Basic
import RecordSchema.Proofs.Emission.Name
import RecordSchema.Proofs.Emission.Word

/-!
# Declarations of emitted code

The declarations of a module are read from its tokens: a keyword and a name, what
stands from there up to the brace that opens the body, and the body. All else is passed
over: comments, attributes, imports, and what stands behind a body.

Main statement: an emitted module declares the static and the routine of each type and
nothing else, `declarations_of_emit`.
-/

namespace RecordSchema

namespace Emission

/-! ## Declarations -/

/-- A declaration of emitted code, with the tokens from its name up to the brace that
opens its body, and those of the body. -/
structure Declaration where
  keyword : String
  name : String
  signature : List Token
  body : List Token

/-- Where among declarations a reader stands. `front` is what it has read of the
signature or of the body of one. -/
inductive Scope where
  | outside
  | announced (keyword : String)
  | before (keyword name : String) (front : List Token)
  | inside (keyword name : String) (signature front : List Token)

/-- Whether a word starts a declaration. -/
def isKeyword (word : String) : Bool :=
  word == "static" || word == "fn"

/-- How a token is read. Bodies hold no braces. -/
def Scope.step : Scope → Token → Scope × Option Declaration
  | outside, .word text => (if isKeyword text then announced text else outside, none)
  | outside, _ => (outside, none)
  | announced keyword, .word name => (before keyword name [], none)
  | announced _, _ => (outside, none)
  | before keyword name front, token =>
    if token = .symbol '\x7b' then (inside keyword name (front ++ [token]) [], none)
    else (before keyword name (front ++ [token]), none)
  | inside keyword name signature front, token =>
    if token = .symbol '\x7d' then (outside, some ⟨keyword, name, signature, front⟩)
    else (inside keyword name signature (front ++ [token]), none)

/-- The declarations among tokens that are read from a scope on. -/
def declarationsFrom : Scope → List Token → List Declaration
  | _, [] => []
  | scope, token :: rest =>
    (scope.step token).2.toList ++ declarationsFrom (scope.step token).1 rest

/-- The declarations of a text. -/
def declarations (text : String) : List Declaration :=
  declarationsFrom .outside (tokens text)

/-- What stands between the name of a static that holds a plan and its initialiser. -/
def staticSignature : List Token :=
  tokens ": LazyLock<Arc<ObjectPlan>> = LazyLock::new(|| \x7b\n"

/-- What stands between the name of a routine and its body. -/
def routineSignature : List Token :=
  tokens
    "(data: &Value, options: &ValidateOptions) -> Result<Outcome, ValidationFailure> \x7b\n"

/-- The start of a call of the runtime of a crate, up to the plan. -/
def runtimeCall (crate : String) : List Token :=
  tokens (crate ++ "::runtime::validate(&")

/-! ## Reading declarations -/

theorem declarationsFrom_before {front : List Token}
    (h : .symbol '\x7b' ∉ front) (keyword name : String) (before rest : List Token) :
    declarationsFrom (.before keyword name before) (front ++ .symbol '\x7b' :: rest) =
      declarationsFrom (.inside keyword name (before ++ front ++ [.symbol '\x7b']) []) rest := by
  induction front generalizing before with
  | nil =>
      rw [List.append_nil]
      rfl
  | cons token front ih =>
      rw [List.mem_cons, not_or] at h
      have hstep : Scope.step (.before keyword name before) token =
          (.before keyword name (before ++ [token]), none) := if_neg (Ne.symm h.1)
      rw [List.cons_append, declarationsFrom, hstep, Option.toList_none, List.nil_append,
        ih h.2, List.append_assoc before, List.singleton_append]

theorem declarationsFrom_inside {body : List Token} (h : .symbol '\x7d' ∉ body)
    (keyword name : String) (signature front rest : List Token) :
    declarationsFrom (.inside keyword name signature front) (body ++ .symbol '\x7d' :: rest) =
      ⟨keyword, name, signature, front ++ body⟩ :: declarationsFrom .outside rest := by
  induction body generalizing front with
  | nil =>
      rw [List.append_nil]
      rfl
  | cons token body ih =>
      rw [List.mem_cons, not_or] at h
      have hstep : Scope.step (.inside keyword name signature front) token =
          (.inside keyword name signature (front ++ [token]), none) := if_neg (Ne.symm h.1)
      rw [List.cons_append, declarationsFrom, hstep, Option.toList_none, List.nil_append,
        ih h.2, List.append_assoc, List.singleton_append]

/-- A signature ends with the only brace in it. -/
def IsSignature (signature : List Token) : Prop :=
  signature.getLast? = some (.symbol '\x7b') ∧ .symbol '\x7b' ∉ signature.dropLast

theorem isSignature_staticSignature : IsSignature staticSignature := by
  constructor <;> decide +kernel

theorem isSignature_routineSignature : IsSignature routineSignature := by
  constructor <;> decide +kernel

theorem declarationsFrom_declaration {keyword : String} (hkeyword : isKeyword keyword = true)
    {signature body : List Token} (hsignature : IsSignature signature)
    (hbody : .symbol '\x7d' ∉ body) (name : String) (rest : List Token) :
    declarationsFrom .outside (.word keyword :: .word name ::
        (signature ++ (body ++ .symbol '\x7d' :: rest))) =
      ⟨keyword, name, signature, body⟩ :: declarationsFrom .outside rest := by
  have hopen : ∀ inside, declarationsFrom .outside (.word keyword :: .word name :: inside) =
      declarationsFrom (.before keyword name []) inside := by
    intro inside
    rw [declarationsFrom, Scope.step, hkeyword]
    rfl
  have hsplit : signature = signature.dropLast ++ [.symbol '\x7b'] :=
    (List.dropLast_append_getLast? _ hsignature.1).symm
  have hbefore := declarationsFrom_before hsignature.2 keyword name []
    (body ++ .symbol '\x7d' :: rest)
  rw [List.nil_append, List.append_cons, ← hsplit] at hbefore
  rw [hopen, hbefore, declarationsFrom_inside hbody, List.nil_append]

/-! ## What starts no declaration -/

/-- The declarations that are read behind all others. -/
def declarationsIn (text : List Char) : List Declaration :=
  declarationsFrom .outside (tokensFrom .code text)

/-- A path in front of a symbol starts no declaration. -/
theorem declarationsIn_path {path : List Char} (hpath : ∀ c ∈ path, isPathChar c = true)
    {c : Char} (hc : Place.step .code c = (.code, [.symbol c])) (htail : CratePath.isTail c = false)
    (rest : List Char) :
    declarationsIn (path ++ c :: rest) = declarationsIn (c :: rest) ∧
      ∀ front, declarationsFrom .outside (tokensFrom (.word front) (path ++ c :: rest)) =
        declarationsIn (c :: rest) := by
  have hsymbol : ∀ d tokens, declarationsFrom .outside (.symbol d :: tokens) =
      declarationsFrom .outside tokens := fun _ _ => rfl
  have hword : ∀ word d tokens, declarationsFrom .outside (.word word :: .symbol d :: tokens) =
      declarationsFrom .outside tokens := by
    intro word d tokens
    rw [declarationsFrom, Scope.step]
    cases isKeyword word <;> rfl
  simp only [declarationsIn, tokensFrom_cons, hc]
  induction path with
  | nil =>
      refine ⟨by rw [List.nil_append, tokensFrom_cons, hc], fun front => ?_⟩
      rw [List.nil_append, tokensFrom_word_end htail, tokensFrom_cons, hc]
      exact hword _ c _
  | cons d path ih =>
      obtain ⟨ihcode, ihword⟩ := ih fun e he => hpath e (List.mem_cons_of_mem _ he)
      rcases step_of_isPathChar (hpath d List.mem_cons_self) with ⟨hstep, hstep'⟩ | ⟨hstep, hstep'⟩
      · simp only [List.cons_append, tokensFrom_cons, hstep, hstep', List.nil_append]
        exact ⟨ihword [d], fun front => ihword (front ++ [d])⟩
      · simp only [List.cons_append, tokensFrom_cons, hstep, hstep', List.nil_append]
        rw [hsymbol]
        refine ⟨ihcode, fun front => ?_⟩
        rw [hword]
        exact ihcode

theorem declarationsIn_crate {crate : String} (hcrate : CratePath.isValid crate = true)
    {follows : String} (hfollows : follows.toList.head? = some ':') (rest : List Char) :
    declarationsIn (crate.toList ++ (follows.toList ++ rest)) =
      declarationsIn (follows.toList ++ rest) := by
  obtain ⟨others, hlist⟩ := List.head?_eq_some_iff.mp hfollows
  rw [hlist]
  exact (declarationsIn_path (isPathChar_of_isValid hcrate) (by decide) (by decide) _).1

/-- Whether a token starts no declaration. -/
def Token.isPlain : Token → Bool
  | .word text => !isKeyword text
  | _ => true

theorem declarationsFrom_append_of_isPlain {front : List Token}
    (h : front.all Token.isPlain = true) (rest : List Token) :
    declarationsFrom .outside (front ++ rest) = declarationsFrom .outside rest := by
  induction front with
  | nil => rfl
  | cons token front ih =>
      rw [List.all_cons, Bool.and_eq_true] at h
      have hstep : Scope.step .outside token = (.outside, none) := by
        cases token with
        | word text =>
            have hplain : isKeyword text = false := by simpa [Token.isPlain] using h.1
            simp [Scope.step, hplain]
        | literal text => rfl
        | symbol c => rfl
      rw [List.cons_append, declarationsFrom, hstep]
      exact ih h.2

/-- A text of plain tokens is passed over. -/
theorem declarationsIn_of_isPlain (text : String)
    (hsettled : (readThrough .code text.toList).1 = .code)
    (h : (tokens text).all Token.isPlain = true) (rest : List Char) :
    declarationsIn (text.toList ++ rest) = declarationsIn rest := by
  rw [declarationsIn, tokensFrom_of_settled hsettled, declarationsFrom_append_of_isPlain h,
    declarationsIn]

/-! ## The declarations of a type -/

/-- An identifier is one word where a text follows that starts with something else. -/
theorem tokensFrom_identifier {text : String} (hne : text ≠ "")
    (htext : ∀ c ∈ text.toList, CratePath.isTail c = true) {follows : String} {c : Char}
    (hfollows : follows.toList.head? = some c) (hc : CratePath.isTail c = false)
    (rest : List Char) :
    tokensFrom .code (text.toList ++ (follows.toList ++ rest)) =
      .word text :: tokensFrom .code (follows.toList ++ rest) := by
  obtain ⟨others, hlist⟩ := List.head?_eq_some_iff.mp hfollows
  have hpath := (tokensFrom_path hc text.toList (others ++ rest) fun d hd =>
    isPathChar_of_isTail (htext d hd)).1
  have hword := tokens_of_isTail hne htext
  rw [tokens] at hword
  rw [hlist, List.cons_append, hpath, hword]
  rfl

section Declarations

variable {statics : Entries String} {static : String} {plan : ObjectPlan}

/-- What is in the braces of the static for a plan. -/
def initialiserOf (statics : Entries String) (plan : ObjectPlan) : Expression :=
  .call "Arc::new" .inline [planExpression statics plan]

theorem allWords_initialiserOf (h : NamesStatics statics) (plan : ObjectPlan) :
    (initialiserOf statics plan).AllWords Expression.IsPath := by
  rw [initialiserOf]
  simp only [Expression.AllWords, Expression.AllWordsOf]
  exact ⟨Expression.isPath_of_all (by decide), Expression.allWords_planExpression h plan, trivial⟩

theorem tokensFrom_staticText (hne : static ≠ "")
    (hstatic : ∀ c ∈ static.toList, CratePath.isTail c = true)
    (hwords : (initialiserOf statics plan).AllWords Expression.IsPath) (rest : List Char) :
    tokensFrom .code ((staticText statics static plan).toList ++ rest) =
      .word "static" :: .word static ::
        (staticSignature ++
          ((initialiserOf statics plan).tokens ++ .symbol '\x7d' ::
            .symbol ')' :: .symbol ';' :: tokensFrom .code rest)) := by
  have hopen : ∀ follows, tokensFrom .code
      (": LazyLock<Arc<ObjectPlan>> = LazyLock::new(|| \x7b\n".toList ++ follows) =
        staticSignature ++ tokensFrom .code follows :=
    tokensFrom_of_settled (by decide +kernel)
  have hbody : ∀ follows, tokensFrom .code ((indentation 1).toList ++
      (((initialiserOf statics plan).render 1).toList ++ ("\n".toList ++ follows))) =
        (initialiserOf statics plan).tokens ++ tokensFrom .code follows := by
    intro follows
    rw [tokensFrom_indentation]
    exact Expression.tokensFrom_render 1 _ hwords '\n' follows (by decide)
  have hclose : tokensFrom .code ("\x7d);\n".toList ++ rest) =
      .symbol '\x7d' :: .symbol ')' :: .symbol ';' :: tokensFrom .code rest := rfl
  have hkeyword : ∀ follows, tokensFrom .code ("static ".toList ++ follows) =
      .word "static" :: tokensFrom .code follows := fun _ => rfl
  unfold staticText initialisedStatic
  rw [← initialiserOf]
  simp only [String.toList_append, List.append_assoc]
  rw [hkeyword, tokensFrom_identifier (c := ':') hne hstatic rfl (by decide), hopen, hbody, hclose]

theorem tokensFrom_runtimeCall {crate : String} (hcrate : CratePath.isValid crate = true) :
    runtimeCall crate = tokens crate ++ tokens "::runtime::validate(&" ∧
      ∀ rest, tokensFrom .code (crate.toList ++ ("::runtime::validate(&".toList ++ rest)) =
        runtimeCall crate ++ tokensFrom .code rest := by
  have hpath : ∀ rest, tokensFrom .code (crate.toList ++ ("::runtime::validate(&".toList ++ rest)) =
      tokens crate ++ tokens "::runtime::validate(&" ++ tokensFrom .code rest := by
    intro rest
    have hcolon := (tokensFrom_path (c := ':') (by decide) crate.toList
      (":runtime::validate(&".toList ++ rest) (isPathChar_of_isValid hcrate)).1
    rw [List.append_assoc]
    exact hcolon
  have hcall : runtimeCall crate = tokens crate ++ tokens "::runtime::validate(&" := by
    have hend := hpath []
    rwa [List.append_nil, ← String.toList_append, ← tokens, tokensFrom, Place.finish,
      List.append_nil] at hend
  rw [hcall]
  exact ⟨rfl, hpath⟩

/-- What is in the braces of the routine that hands over a static. -/
def handover (crate static : String) : List Token :=
  runtimeCall crate ++ [.word static, .symbol ',', .word "data", .symbol ',', .word "options",
    .symbol ')']

theorem tokensFrom_docComment {typeName : String} (h : '\n' ∉ typeName.toList)
    (rest : List Char) :
    tokensFrom .code ("/// Validates a `".toList ++ (typeName.toList ++ ("` record.\n".toList ++
      ("///\n".toList ++
        ("/// Assertion mode returns the transformed record or the first failure.\n".toList ++
          ("/// Verbose mode returns a report of every failing property.\n".toList ++
            rest)))))) = tokensFrom .code rest := by
  have hstart : ∀ follows, tokensFrom .code ("/// Validates a `".toList ++ follows) =
      tokensFrom .comment follows := fun _ => rfl
  have hend : ∀ follows, tokensFrom .comment ("` record.\n".toList ++ follows) =
      tokensFrom .code follows := fun _ => rfl
  have hblank : ∀ follows, tokensFrom .code ("///\n".toList ++ follows) =
      tokensFrom .code follows := fun _ => rfl
  have hassertion : readThrough .code
      "/// Assertion mode returns the transformed record or the first failure.\n".toList =
        (.code, []) := by decide +kernel
  have hverbose : readThrough .code
      "/// Verbose mode returns a report of every failing property.\n".toList = (.code, []) := by
    decide +kernel
  rw [hstart, tokensFrom_comment h, hend, hblank, tokensFrom_append, hassertion, List.nil_append,
    tokensFrom_append, hverbose, List.nil_append]

theorem tokensFrom_routineText {crate typeName : String}
    (hcrate : CratePath.isValid crate = true) (htypeName : '\n' ∉ typeName.toList)
    (name : String) (rest : List Char) :
    tokensFrom .code ((routineText crate (.of name) typeName).toList ++ rest) =
      .word "pub" :: .word "fn" :: .word (TypeNames.of name).routine ::
        (routineSignature ++ (handover crate (TypeNames.of name).static ++
          .symbol '\x7d' :: tokensFrom .code rest)) := by
  have hkeyword : ∀ follows, tokensFrom .code ("pub fn ".toList ++ follows) =
      .word "pub" :: .word "fn" :: tokensFrom .code follows := fun _ => rfl
  have hsignature : ∀ follows, tokensFrom .code
      (String.toList
        "(data: &Value, options: &ValidateOptions) -> Result<Outcome, ValidationFailure> \x7b\n" ++
        follows) = routineSignature ++ tokensFrom .code follows :=
    tokensFrom_of_settled (by decide +kernel)
  have hblanks : ∀ follows, tokensFrom .code ("    ".toList ++ follows) =
      tokensFrom .code follows := fun _ => rfl
  have hclose : tokensFrom .code (", data, options)\n".toList ++ ("\x7d\n".toList ++ rest)) =
      .symbol ',' :: .word "data" :: .symbol ',' :: .word "options" :: .symbol ')' ::
        .symbol '\x7d' :: tokensFrom .code rest := rfl
  unfold routineText
  simp only [String.toList_append, List.append_assoc]
  rw [tokensFrom_docComment htypeName, hkeyword,
    tokensFrom_identifier (c := '(') (TypeNames.routine_ne_empty name)
      (TypeNames.isTail_of_mem_routine name) rfl (by decide),
    hsignature, hblanks, (tokensFrom_runtimeCall hcrate).2,
    tokensFrom_identifier (c := ',') (TypeNames.static_ne_empty name)
      (TypeNames.isTail_of_mem_static name) rfl (by decide),
    hclose, handover]
  simp only [List.append_assoc, List.cons_append, List.nil_append]

/-- The static for a plan, as it is read. -/
def staticDeclaration (statics : Entries String) (plan : ObjectPlan) : Declaration :=
  ⟨"static", (TypeNames.of plan.name).static, staticSignature, (initialiserOf statics plan).tokens⟩

/-- The routine for a type, as it is read. -/
def routineDeclaration (crate name : String) : Declaration :=
  ⟨"fn", (TypeNames.of name).routine, routineSignature, handover crate (TypeNames.of name).static⟩

theorem brace_not_mem_handover {crate : String} (hcrate : CratePath.isValid crate = true)
    (static : String) : .symbol '\x7d' ∉ handover crate static := by
  have hpath : .symbol '\x7d' ∉ tokens crate :=
    symbol_not_mem (isPathChar_of_isValid hcrate) (by decide)
  have hcall : .symbol '\x7d' ∉ tokens "::runtime::validate(&" := by decide +kernel
  simp [handover, (tokensFrom_runtimeCall hcrate).1, hpath, hcall]

theorem declarationsFrom_typeText {crate : String} (hcrate : CratePath.isValid crate = true)
    (hname : '\n' ∉ plan.name.toList)
    (hwords : (initialiserOf statics plan).AllWords Expression.IsPath) (rest : List Char) :
    declarationsFrom .outside
        (tokensFrom .code ((typeText crate statics plan (.of plan.name)).toList ++ rest)) =
      staticDeclaration statics plan :: routineDeclaration crate plan.name ::
        declarationsFrom .outside (tokensFrom .code rest) := by
  have hbreak : ∀ follows, tokensFrom .code ("\n".toList ++ follows) = tokensFrom .code follows :=
    fun _ => rfl
  have hbetween : ∀ follows, declarationsFrom .outside (.symbol ')' :: .symbol ';' ::
      .word "pub" :: follows) = declarationsFrom .outside follows := by
    intro follows
    have hpub : isKeyword "pub" = false := by decide
    simp [declarationsFrom, Scope.step, hpub]
  unfold typeText
  simp only [String.toList_append, List.append_assoc]
  rw [hbreak, tokensFrom_staticText (TypeNames.static_ne_empty plan.name)
      (TypeNames.isTail_of_mem_static plan.name) hwords,
    declarationsFrom_declaration (by decide) isSignature_staticSignature
      (Expression.brace_not_mem_tokens _ hwords),
    hbreak, tokensFrom_routineText hcrate hname, hbetween,
    declarationsFrom_declaration (by decide) isSignature_routineSignature
      (brace_not_mem_handover hcrate _)]
  rfl

end Declarations

/-! ## The declarations of a module -/

theorem declarationsIn_headerText (rest : List Char) :
    declarationsIn (headerText.toList ++ rest) = declarationsIn rest :=
  declarationsIn_of_isPlain headerText (by decide +kernel) (by decide +kernel) rest

theorem declarationsIn_importsText {crate : String} (hcrate : CratePath.isValid crate = true)
    (rest : List Char) :
    declarationsIn ((importsText crate).toList ++ rest) = declarationsIn rest := by
  have hallow := declarationsIn_of_isPlain "#[allow(unused_imports)]\n"
    (by decide +kernel) (by decide +kernel)
  have hsync := declarationsIn_of_isPlain "use std::sync::\x7bArc, LazyLock\x7d;\n\n"
    (by decide +kernel) (by decide +kernel)
  have hvalue := declarationsIn_of_isPlain "use serde_json::Value;\n\n"
    (by decide +kernel) (by decide +kernel)
  have huse := declarationsIn_of_isPlain "use "
    (by decide +kernel) (by decide +kernel)
  have hcompiler := declarationsIn_of_isPlain
    "::compiler::\x7bCheck, ItemPlan, ObjectPlan, PropertyPlan, ValueKind\x7d;\n"
    (by decide +kernel) (by decide +kernel)
  have hruntime := declarationsIn_of_isPlain
    "::runtime::\x7bOutcome, ValidateOptions, ValidationFailure\x7d;\n"
    (by decide +kernel) (by decide +kernel)
  have hschema := declarationsIn_of_isPlain "::schema::Transform;\n"
    (by decide +kernel) (by decide +kernel)
  unfold importsText
  simp only [String.toList_append, List.append_assoc]
  rw [hallow, hsync, hallow, hvalue, hallow, huse, declarationsIn_crate hcrate (by decide),
    hcompiler, hallow, huse, declarationsIn_crate hcrate (by decide), hruntime, hallow, huse,
    declarationsIn_crate hcrate (by decide), hschema]

theorem namesStatics_staticsOf (typeNames : List String) : NamesStatics (staticsOf typeNames) := by
  intro name static hget
  rw [(mem_of_get?_staticsOf hget).2]
  exact TypeNames.isTail_of_mem_static name

theorem declarationsIn_typeTexts {crate : String} (hcrate : CratePath.isValid crate = true)
    {statics : Entries String} (hstatics : NamesStatics statics) {plans : List ObjectPlan}
    (hplans : ∀ plan ∈ plans, '\n' ∉ plan.name.toList) :
    declarationsIn (String.join (plans.map fun plan =>
        typeText crate statics plan (.of plan.name))).toList =
      plans.flatMap fun plan =>
        [staticDeclaration statics plan, routineDeclaration crate plan.name] := by
  induction plans with
  | nil => rfl
  | cons plan rest ih =>
      obtain ⟨hplan, hrest⟩ := List.forall_mem_cons.mp hplans
      rw [List.map_cons, String.join_cons, String.toList_append, declarationsIn,
        declarationsFrom_typeText hcrate hplan (allWords_initialiserOf hstatics plan),
        ← declarationsIn, ih hrest]
      rfl

/-- An emitted module declares the static and the routine of each type. -/
theorem declarations_of_emit {compiled : CompiledSchema} {options : EmitOptions} {text : String}
    (hcrate : CratePath.isValid options.runtimeCrate = true)
    (hnames : ∀ name ∈ compiled.typeNames, '\n' ∉ name.toList)
    (hemit : (compiled.emit options).outcome = .ok text) :
    declarations text = compiled.plans.flatMap fun plan =>
      [staticDeclaration (staticsOf compiled.typeNames) plan,
        routineDeclaration options.runtimeCrate plan.name] := by
  have hplans : ∀ plan ∈ compiled.plans, '\n' ∉ plan.name.toList := fun plan hplan =>
    hnames plan.name (List.mem_map_of_mem hplan)
  have htypes := declarationsIn_typeTexts hcrate (namesStatics_staticsOf compiled.typeNames) hplans
  rw [(CompiledSchema.emit_eq_ok_iff.mp hemit).2, declarations, tokens, ← declarationsIn,
    String.toList_append, String.toList_append, List.append_assoc]
  have hheader : ∀ rest, declarationsIn ((if options.header then headerText else "").toList ++
      rest) = declarationsIn rest := by
    intro rest
    cases options.header with
    | true => exact declarationsIn_headerText rest
    | false => rfl
  rw [hheader, declarationsIn_importsText hcrate]
  exact htypes

end Emission

end RecordSchema
