import RecordSchema.Proofs.Compile
import RecordSchema.Proofs.Emission.Declaration
import RecordSchema.Proofs.Rename
import RecordSchema.Proofs.Report

/-!
# The outline of emitted code

The outline of a text is what is left of it without the lines that begin with two
slashes and without the insides of its string literals. Emitted code whose type names
have no line breaks keeps them there: its outline is the same for all names that are the
same in snake case. A name with a line break gets out of the comment that it stands in.
-/

namespace RecordSchema

namespace Emission

/-- Where a reader of the outline stands. -/
inductive Margin where
  | lineStart
  /-- Behind a slash at the start of a line. -/
  | slash
  | code
  /-- In a line that begins with two slashes. -/
  | comment
  | literal
  /-- Behind a backslash. -/
  | escape
  deriving DecidableEq

namespace Margin

/-- How a character is read in code, where it is kept. -/
def enter (c : Char) : Margin × List Char :=
  (if c = '"' then literal else if c = '\n' then lineStart else code, [c])

/-- How a character is read. -/
def step : Margin → Char → Margin × List Char
  | lineStart, c => if c = '/' then (slash, []) else enter c
  | slash, c => if c = '/' then (comment, []) else ((enter c).1, '/' :: (enter c).2)
  | code, c => enter c
  | comment, c => (if c = '\n' then lineStart else comment, [])
  | literal, c =>
    if c = '"' then (code, [c]) else (if c = '\\' then escape else literal, [])
  | escape, _ => (literal, [])

end Margin

/-- The outline of a text that is read from a place on. -/
def outlineFrom : Margin → List Char → List Char
  | .slash, [] => ['/']
  | _, [] => []
  | margin, c :: rest => (margin.step c).2 ++ outlineFrom (margin.step c).1 rest

/-- The text without the lines that begin with two slashes and without the insides of
its string literals. -/
def outline (text : String) : String :=
  String.ofList (outlineFrom .lineStart text.toList)

/-- Where a reader of the outline gets to with a text, and what it has kept by then. -/
def outlineThrough : Margin → List Char → Margin × List Char
  | margin, [] => (margin, [])
  | margin, c :: rest =>
    let next := margin.step c
    let others := outlineThrough next.1 rest
    (others.1, next.2 ++ others.2)

theorem outlineFrom_cons (margin : Margin) (c : Char) (rest : List Char) :
    outlineFrom margin (c :: rest) = (margin.step c).2 ++ outlineFrom (margin.step c).1 rest := by
  cases margin <;> rfl

theorem outlineThrough_append (margin : Margin) (front rest : List Char) :
    outlineThrough margin (front ++ rest) =
      ((outlineThrough (outlineThrough margin front).1 rest).1,
        (outlineThrough margin front).2 ++
          (outlineThrough (outlineThrough margin front).1 rest).2) := by
  induction front generalizing margin with
  | nil => rfl
  | cons c front ih => simp [outlineThrough, ih]

theorem outlineFrom_append (margin : Margin) (front rest : List Char) :
    outlineFrom margin (front ++ rest) =
      (outlineThrough margin front).2 ++ outlineFrom (outlineThrough margin front).1 rest := by
  induction front generalizing margin with
  | nil => rfl
  | cons c front ih =>
      rw [List.cons_append, outlineFrom_cons, ih, ← List.append_assoc]
      rfl

/-! ## What is kept -/

theorem outlineFrom_path {path : List Char} (h : ∀ c ∈ path, isPathChar c = true)
    (rest : List Char) : outlineFrom .code (path ++ rest) = path ++ outlineFrom .code rest := by
  induction path with
  | nil => rfl
  | cons c path ih =>
      obtain ⟨hc, hpath⟩ := List.forall_mem_cons.mp h
      have hquote : c ≠ '"' := by
        rintro rfl
        revert hc
        decide
      have hbreak : c ≠ '\n' := by
        rintro rfl
        revert hc
        decide
      have hstep : Margin.step .code c = (.code, [c]) := by
        rw [Margin.step, Margin.enter, if_neg hquote, if_neg hbreak]
      rw [List.cons_append, outlineFrom_cons, hstep, ih hpath]
      rfl

theorem outlineFrom_blanks (n : Nat) (rest : List Char) :
    outlineFrom .code (List.replicate n ' ' ++ rest) =
      List.replicate n ' ' ++ outlineFrom .code rest := by
  induction n with
  | zero => rfl
  | succ n ih =>
      change ' ' :: outlineFrom .code (List.replicate n ' ' ++ rest) = _
      rw [ih]
      rfl

theorem outlineFrom_indented (depth : Nat) (rest : List Char) :
    outlineFrom .lineStart ((indentation (depth + 1)).toList ++ rest) =
      (indentation (depth + 1)).toList ++ outlineFrom .code rest := by
  have hblank : ∀ rest, outlineFrom .lineStart (' ' :: rest) = ' ' :: outlineFrom .code rest :=
    fun _ => rfl
  rw [indentation, String.toList_ofList, Nat.mul_succ, List.replicate_succ, List.cons_append,
    hblank, outlineFrom_blanks]
  rfl

/-- A line that is indented, or starts with something else than a slash, is kept. -/
theorem outlineFrom_indentation (depth : Nat) {c : Char} (hc : c ≠ '/') (rest : List Char) :
    outlineFrom .lineStart ((indentation depth).toList ++ c :: rest) =
      (indentation depth).toList ++ outlineFrom .code (c :: rest) := by
  cases depth with
  | zero =>
      have hstep : Margin.step .lineStart c = Margin.step .code c := if_neg hc
      have hempty : (indentation 0).toList = [] := rfl
      rw [hempty, List.nil_append, List.nil_append, outlineFrom_cons, hstep, ← outlineFrom_cons]
  | succ depth => exact outlineFrom_indented depth (c :: rest)

/-! ## What is left out -/

theorem outlineThrough_comment {text : List Char} (h : '\n' ∉ text) :
    outlineThrough .comment text = (.comment, []) := by
  induction text with
  | nil => rfl
  | cons c text ih =>
      rw [List.mem_cons, not_or] at h
      have hstep : Margin.step .comment c = (.comment, []) := by
        rw [Margin.step, if_neg (Ne.symm h.1)]
      rw [outlineThrough, hstep, ih h.2]
      rfl

theorem outlineFrom_inside {text : List Char} (h : ∀ c ∈ text, c ≠ '"' ∧ c ≠ '\\')
    (rest : List Char) : outlineFrom .literal (text ++ rest) = outlineFrom .literal rest := by
  induction text with
  | nil => rfl
  | cons c text ih =>
      obtain ⟨⟨hquote, hslash⟩, htext⟩ := List.forall_mem_cons.mp h
      have hstep : Margin.step .literal c = (.literal, []) := by
        rw [Margin.step, if_neg hquote, if_neg hslash]
      rw [List.cons_append, outlineFrom_cons, hstep, ih htext]
      rfl

theorem exists_digit_of_mem_toDigits {n : Nat} {c : Char} (h : c ∈ Nat.toDigits 16 n) :
    ∃ digit < 16, c = digit.digitChar := by
  induction n using Nat.strongRecOn with
  | ind n ih =>
      rw [Nat.toDigits_eq_if (by decide)] at h
      split at h
      · case isTrue hlt => exact ⟨n, hlt, List.mem_singleton.mp h⟩
      · case isFalse hge =>
          rcases List.mem_append.mp h with h | h
          · exact ih (n / 16) (by omega) h
          · exact ⟨n % 16, by omega, List.mem_singleton.mp h⟩

theorem outlineFrom_literalChar (c : Char) (rest : List Char) :
    outlineFrom .literal (Text.literalChar c ++ rest) = outlineFrom .literal rest := by
  have hescape : ∀ d s, outlineFrom .literal ('\\' :: d :: s) = outlineFrom .literal s :=
    fun _ _ => rfl
  rw [Text.literalChar]
  split
  · exact hescape _ _
  split
  · exact hescape _ _
  split
  · exact hescape _ _
  split
  · exact hescape _ _
  split
  · exact hescape _ _
  split
  · exact hescape _ _
  split
  · case isTrue hquote hslash _ =>
      exact outlineFrom_inside (by simp [hquote, hslash]) rest
  · have hdigits : ∀ digit < 16, digit.digitChar ≠ '"' ∧ digit.digitChar ≠ '\\' := by decide
    have hinside : ∀ d ∈ '\x7b' :: (Nat.toDigits 16 c.toNat ++ ['\x7d']), d ≠ '"' ∧ d ≠ '\\' := by
      intro d hd
      rcases List.mem_cons.mp hd with rfl | hd
      · decide
      rcases List.mem_append.mp hd with hd | hd
      · obtain ⟨digit, hlt, rfl⟩ := exists_digit_of_mem_toDigits hd
        exact hdigits digit hlt
      · rw [List.mem_singleton.mp hd]
        decide
    have hcode := outlineFrom_inside hinside rest
    simp only [List.append_assoc, List.cons_append, List.nil_append] at hcode ⊢
    rw [hescape, hcode]

/-- Of a literal the quotes are left. -/
theorem outlineFrom_literal (text : String) (rest : List Char) :
    outlineFrom .code ((Text.literal text).toList ++ rest) =
      (Text.literal "").toList ++ outlineFrom .code rest := by
  have hinside : ∀ text : List Char,
      outlineFrom .literal (text.flatMap Text.literalChar ++ '"' :: rest) =
        '"' :: outlineFrom .code rest := by
    intro text
    induction text with
    | nil => rfl
    | cons c text ih =>
        rw [List.flatMap_cons, List.append_assoc, outlineFrom_literalChar, ih]
  have hopen : ∀ s, outlineFrom .code ('"' :: s) = '"' :: outlineFrom .literal s := fun _ => rfl
  rw [Text.literal, String.toList_ofList, Text.literalChars, List.cons_append, List.cons_append,
    hopen, List.append_assoc, List.singleton_append, hinside]
  rfl

namespace Expression

mutual

/-- The expression with nothing in its literals. -/
def hidden : Expression → Expression
  | word text => word text
  | literal _ => literal ""
  | owned _ => owned ""
  | call head layout arguments => call head layout (hiddenAll arguments)
  | vector layout items => vector layout (hiddenAll items)

def hiddenAll : List Expression → List Expression
  | [] => []
  | expression :: rest => hidden expression :: hiddenAll rest

end

mutual

/-- The outline of a rendered expression is the expression rendered without what is in
its literals. -/
theorem outlineFrom_render (depth : Nat) :
    ∀ expression : Expression, expression.AllWords IsPath → ∀ rest : List Char,
      outlineFrom .code ((expression.render depth).toList ++ rest) =
        (expression.hidden.render depth).toList ++ outlineFrom .code rest
  | word text, h, rest => by
      rw [AllWords] at h
      rw [hidden, render, outlineFrom_path h]
  | literal text, _, rest => by rw [hidden, render, render, outlineFrom_literal]
  | owned text, _, rest => by
      have hto : ∀ s, outlineFrom .code (".to_string()".toList ++ s) =
          ".to_string()".toList ++ outlineFrom .code s := fun _ => rfl
      rw [hidden, render, render, String.toList_append, String.toList_append, List.append_assoc,
        List.append_assoc, outlineFrom_literal, hto]
  | call head .inline arguments, h, rest => by
      rw [AllWords] at h
      have hopen : ∀ s, outlineFrom .code ("(".toList ++ s) = "(".toList ++ outlineFrom .code s :=
        fun _ => rfl
      have hclose : ∀ s, outlineFrom .code (")".toList ++ s) = ")".toList ++ outlineFrom .code s :=
        fun _ => rfl
      rw [hidden, render, render]
      simp only [String.toList_append, List.append_assoc]
      rw [outlineFrom_path h.1, hopen, outlineFrom_renderInline depth arguments h.2, hclose]
  | call head .block arguments, h, rest => by
      rw [AllWords] at h
      have hopen : ∀ s, outlineFrom .code ("(\n".toList ++ s) =
          "(\n".toList ++ outlineFrom .lineStart s := fun _ => rfl
      have hclose : outlineFrom .lineStart ((indentation depth).toList ++ (")".toList ++ rest)) =
          (indentation depth).toList ++ (")".toList ++ outlineFrom .code rest) :=
        outlineFrom_indentation depth (by decide) rest
      rw [hidden, render, render]
      simp only [String.toList_append, List.append_assoc]
      rw [outlineFrom_path h.1, hopen, outlineFrom_renderBlock depth arguments h.2, hclose]
  | vector .inline items, h, rest => by
      rw [AllWords] at h
      have hopen : ∀ s, outlineFrom .code ("vec![".toList ++ s) =
          "vec![".toList ++ outlineFrom .code s := fun _ => rfl
      have hclose : ∀ s, outlineFrom .code ("]".toList ++ s) = "]".toList ++ outlineFrom .code s :=
        fun _ => rfl
      rw [hidden, render, render]
      simp only [String.toList_append, List.append_assoc]
      rw [hopen, outlineFrom_renderInline depth items h, hclose]
  | vector .block items, h, rest => by
      rw [AllWords] at h
      have hopen : ∀ s, outlineFrom .code ("vec![\n".toList ++ s) =
          "vec![\n".toList ++ outlineFrom .lineStart s := fun _ => rfl
      have hclose : outlineFrom .lineStart ((indentation depth).toList ++ ("]".toList ++ rest)) =
          (indentation depth).toList ++ ("]".toList ++ outlineFrom .code rest) :=
        outlineFrom_indentation depth (by decide) rest
      rw [hidden, render, render]
      simp only [String.toList_append, List.append_assoc]
      rw [hopen, outlineFrom_renderBlock depth items h, hclose]

theorem outlineFrom_renderInline (depth : Nat) :
    ∀ expressions : List Expression, AllWordsOf IsPath expressions → ∀ rest : List Char,
      outlineFrom .code ((renderInline depth expressions).toList ++ rest) =
        (renderInline depth (hiddenAll expressions)).toList ++ outlineFrom .code rest
  | [], _, _ => rfl
  | expression :: others, h, rest => by
      rw [AllWordsOf] at h
      rw [hiddenAll, renderInline, renderInline, String.toList_append, String.toList_append,
        List.append_assoc, List.append_assoc, outlineFrom_render depth expression h.1,
        outlineFrom_renderTail depth others h.2]

theorem outlineFrom_renderTail (depth : Nat) :
    ∀ expressions : List Expression, AllWordsOf IsPath expressions → ∀ rest : List Char,
      outlineFrom .code ((renderTail depth expressions).toList ++ rest) =
        (renderTail depth (hiddenAll expressions)).toList ++ outlineFrom .code rest
  | [], _, _ => rfl
  | expression :: others, h, rest => by
      rw [AllWordsOf] at h
      have hcomma : ∀ s,
          outlineFrom .code (", ".toList ++ s) = ", ".toList ++ outlineFrom .code s :=
        fun _ => rfl
      rw [hiddenAll, renderTail, renderTail]
      simp only [String.toList_append, List.append_assoc]
      rw [hcomma, outlineFrom_render depth expression h.1, outlineFrom_renderTail depth others h.2]

/-- The lines of a block are indented, so that all of them are kept. -/
theorem outlineFrom_renderBlock (depth : Nat) :
    ∀ expressions : List Expression, AllWordsOf IsPath expressions → ∀ rest : List Char,
      outlineFrom .lineStart ((renderBlock (depth + 1) expressions).toList ++ rest) =
        (renderBlock (depth + 1) (hiddenAll expressions)).toList ++ outlineFrom .lineStart rest
  | [], _, _ => rfl
  | expression :: others, h, rest => by
      rw [AllWordsOf] at h
      have hindent : ∀ s, outlineFrom .lineStart ((indentation (depth + 1)).toList ++ s) =
          (indentation (depth + 1)).toList ++ outlineFrom .code s := outlineFrom_indented depth
      have hcomma : ∀ s, outlineFrom .code (",\n".toList ++ s) =
          ",\n".toList ++ outlineFrom .lineStart s := fun _ => rfl
      rw [hiddenAll, renderBlock, renderBlock]
      simp only [String.toList_append, List.append_assoc]
      rw [hindent, outlineFrom_render (depth + 1) expression h.1, hcomma,
        outlineFrom_renderBlock depth others h.2]

end

end Expression

/-! ## Plans of renamed types -/

section Rename

variable {statics statics' : Entries String} {plan plan' : String → ObjectPlan}
  {f : String → String}

/-- The two plans are held by statics of the same name. -/
def HaveSameStatic (statics statics' : Entries String) (plan plan' : ObjectPlan) : Prop :=
  ∃ static, statics.get? plan.name = some static ∧ statics'.get? plan'.name = some static

/-- The expressions for two lists of checks have the same outline. -/
def HideAlike (statics statics' : Entries String) (checks checks' : List Check) : Prop :=
  Expression.hiddenAll (checkExpressions statics checks) =
      Expression.hiddenAll (checkExpressions statics' checks') ∧
    checks.map hasInside = checks'.map hasInside

theorem HideAlike.checksLayout_eq {checks checks' : List Check}
    (h : HideAlike statics statics' checks checks') :
    checksLayout checks = checksLayout checks' := by
  have hany : ∀ checks : List Check, checks.any hasInside = (checks.map hasInside).any id := by
    intro checks
    rw [List.any_map]
    rfl
  rw [checksLayout, checksLayout, hany, hany, h.2]

mutual

/-- The checks of a property with its types renamed have the same outline at every
path. -/
theorem specChecks_hideAlike :
    ∀ (spec : PropertySpec) (path path' : String),
      (∀ target, spec.type.Mentions target →
        HaveSameStatic statics statics' (plan target) (plan' (f target))) →
      HideAlike statics statics' (Schema.specChecks plan path spec)
        (Schema.specChecks plan' path' (spec.rename f))
  | ⟨type, _, _⟩, path, path', h => by
      rw [Schema.specChecks, PropertySpec.rename, Schema.specChecks]
      exact typeChecks_hideAlike type path path' h

theorem typeChecks_hideAlike :
    ∀ (type : PropertyType) (path path' : String),
      (∀ target, type.Mentions target →
        HaveSameStatic statics statics' (plan target) (plan' (f target))) →
      HideAlike statics statics' (Schema.typeChecks plan path type)
        (Schema.typeChecks plan' path' (type.rename f))
  | .string minLength start, _, _, _ => by
      rw [PropertyType.rename, Schema.typeChecks, Schema.typeChecks]
      refine ⟨?_, rfl⟩
      cases minLength <;> cases start <;> simp [Check.ofString, checkExpressions, checkExpression]
  | .number isInteger, _, _, _ => by
      rw [PropertyType.rename, Schema.typeChecks, Schema.typeChecks]
      refine ⟨?_, rfl⟩
      cases isInteger <;> simp [Check.ofNumber, checkExpressions, checkExpression]
  | .boolean, _, _, _ => by
      rw [PropertyType.rename, Schema.typeChecks, Schema.typeChecks]
      refine ⟨?_, rfl⟩
      simp [checkExpressions, checkExpression]
  | .object properties, path, path', h => by
      have hproperties := propertyPlans_hidden properties path path' fun target hmentions =>
        h target (PropertyType.mentions_object_iff.mpr hmentions)
      rw [PropertyType.rename, Schema.typeChecks, Schema.typeChecks]
      refine ⟨?_, rfl⟩
      simp [Check.ofObject, checkExpressions, checkExpression, planExpression,
        Expression.hiddenAll, Expression.hidden, hproperties]
  | .array minLength items, path, path', h => by
      have hitems := specChecks_hideAlike items (path ++ "[]") (path' ++ "[]")
        fun target hmentions => h target (.array hmentions)
      rw [PropertyType.rename, Schema.typeChecks, Schema.typeChecks]
      constructor
      · cases minLength <;> simp [Check.ofArray, checkExpressions, checkExpression,
          Expression.hiddenAll, Expression.hidden, hitems.1, hitems.checksLayout_eq]
      · cases minLength <;> rfl
  | .named name, _, _, h => by
      obtain ⟨static, hget, hget'⟩ := h name .named
      rw [PropertyType.rename, Schema.typeChecks, Schema.typeChecks]
      refine ⟨?_, rfl⟩
      simp [Check.ofReference, checkExpressions, checkExpression, hget, hget']

theorem propertyPlans_hidden :
    ∀ (properties : List (String × PropertySpec)) (path path' : String),
      (∀ target, PropertySet.Mentions properties target →
        HaveSameStatic statics statics' (plan target) (plan' (f target))) →
      Expression.hiddenAll (propertyExpressions statics
          (Schema.propertyPlans plan path properties)) =
        Expression.hiddenAll (propertyExpressions statics'
          (Schema.propertyPlans plan' path' (PropertySet.rename f properties)))
  | [], _, _, _ => by
      rw [PropertySet.rename, Schema.propertyPlans, Schema.propertyPlans, propertyExpressions,
        propertyExpressions]
  | (key, ⟨type, required, transforms⟩) :: rest, path, path', h => by
      have hspec := specChecks_hideAlike ⟨type, required, transforms⟩ (path ++ "." ++ key)
        (path' ++ "." ++ key) fun target hmentions =>
          h target (PropertySet.mentions_cons.mpr (.inl hmentions))
      have hrest := propertyPlans_hidden rest path path' fun target hmentions =>
        h target (PropertySet.mentions_cons.mpr (.inr hmentions))
      rw [PropertySpec.rename] at hspec
      rw [PropertySet.rename, PropertySpec.rename, Schema.propertyPlans, Schema.propertyPlans]
      simp [propertyExpressions, propertyExpression, Expression.hiddenAll, Expression.hidden,
        hspec.1, hspec.checksLayout_eq, hrest]

end

end Rename

/-! ## The outline of a module -/

/-- Where a reader of the outline gets to behind the comment that names a type, and what
is left of the comment by then: what stands behind the first line break of the name. -/
def commentOutline (typeName : String) : Margin × List Char :=
  outlineThrough .comment (typeName.toList ++ "` record.\n".toList)

/-- What is left of the static and the routine of a type. -/
def typeOutline (crate : String) (initialiser : Expression) (typeName : String) : List Char :=
  ("\n" ++ ("static " ++ (TypeNames.of typeName).static ++
    ": LazyLock<Arc<ObjectPlan>> = LazyLock::new(|| \x7b\n" ++
    indentation 1 ++ initialiser.render 1 ++ "\n" ++ "\x7d);\n") ++ "\n").toList ++
  (commentOutline typeName).2 ++
  ("pub fn " ++ (TypeNames.of typeName).routine ++
    "(data: &Value, options: &ValidateOptions) -> Result<Outcome, ValidationFailure> \x7b\n" ++
    "    " ++ crate ++ "::runtime::validate(&" ++ (TypeNames.of typeName).static ++
    ", data, options)\n" ++ "\x7d\n").toList

/-- Text that is kept from the start of a line, or from inside of one. -/
theorem outlineFrom_of_kept (margin margin' : Margin) (text : String)
    (h : outlineThrough margin text.toList = (margin', text.toList)) (rest : List Char) :
    outlineFrom margin (text.toList ++ rest) = text.toList ++ outlineFrom margin' rest := by
  rw [outlineFrom_append, h]

/-- Nothing is left of the comment if the name has no line break. -/
theorem commentOutline_of_not_mem {typeName : String} (h : '\n' ∉ typeName.toList) :
    commentOutline typeName = (.lineStart, []) := by
  have hend : outlineThrough .comment "` record.\n".toList = (.lineStart, []) := by decide +kernel
  rw [commentOutline, outlineThrough_append, outlineThrough_comment h, hend]
  rfl

theorem outlineFrom_docComment {typeName : String}
    (h : (commentOutline typeName).1 = .lineStart) (rest : List Char) :
    outlineFrom .lineStart ("/// Validates a `".toList ++ (typeName.toList ++
      ("` record.\n".toList ++ ("///\n".toList ++
        ("/// Assertion mode returns the transformed record or the first failure.\n".toList ++
          ("/// Verbose mode returns a report of every failing property.\n".toList ++
            rest)))))) = (commentOutline typeName).2 ++ outlineFrom .lineStart rest := by
  have hstart : outlineThrough .lineStart "/// Validates a `".toList = (.comment, []) := by
    decide +kernel
  have hname : ∀ rest, outlineFrom .comment (typeName.toList ++ ("` record.\n".toList ++ rest)) =
      (commentOutline typeName).2 ++ outlineFrom .lineStart rest := by
    intro rest
    rw [← List.append_assoc, outlineFrom_append, ← commentOutline, h]
  have hblank : outlineThrough .lineStart "///\n".toList = (.lineStart, []) := by decide +kernel
  have hassertion : outlineThrough .lineStart
      "/// Assertion mode returns the transformed record or the first failure.\n".toList =
        (.lineStart, []) := by decide +kernel
  have hverbose : outlineThrough .lineStart
      "/// Verbose mode returns a report of every failing property.\n".toList =
        (.lineStart, []) := by decide +kernel
  rw [outlineFrom_append, hstart, List.nil_append, hname, outlineFrom_append, hblank,
    List.nil_append, outlineFrom_append, hassertion, List.nil_append, outlineFrom_append, hverbose,
    List.nil_append]

theorem outlineFrom_identifier {text : String} (h : ∀ c ∈ text.toList, CratePath.isTail c = true)
    (rest : List Char) :
    outlineFrom .code (text.toList ++ rest) = text.toList ++ outlineFrom .code rest :=
  outlineFrom_path (fun c hc => isPathChar_of_isTail (h c hc)) rest

/-- Of a type the outline holds its names in snake case, and of its own name what is left
of the comment. -/
theorem outlineFrom_typeText {crate : String} (hcrate : CratePath.isValid crate = true)
    {statics : Entries String} {plan : ObjectPlan}
    (hname : (commentOutline plan.name).1 = .lineStart)
    (hwords : (initialiserOf statics plan).AllWords Expression.IsPath) (rest : List Char) :
    outlineFrom .lineStart ((typeText crate statics plan (.of plan.name)).toList ++ rest) =
      typeOutline crate (initialiserOf statics plan).hidden plan.name ++
        outlineFrom .lineStart rest := by
  have hbreak := outlineFrom_of_kept .lineStart .lineStart "\n" (by decide +kernel)
  have hend := outlineFrom_of_kept .code .lineStart "\n" (by decide +kernel)
  have hstatic := outlineFrom_of_kept .lineStart .code "static " (by decide +kernel)
  have hsignature := outlineFrom_of_kept .code .lineStart
    ": LazyLock<Arc<ObjectPlan>> = LazyLock::new(|| \x7b\n" (by decide +kernel)
  have hclose := outlineFrom_of_kept .lineStart .lineStart "\x7d);\n" (by decide +kernel)
  have hfn := outlineFrom_of_kept .lineStart .code "pub fn " (by decide +kernel)
  have harguments := outlineFrom_of_kept .code .lineStart
    "(data: &Value, options: &ValidateOptions) -> Result<Outcome, ValidationFailure> \x7b\n"
    (by decide +kernel)
  have hblanks := outlineFrom_of_kept .lineStart .code "    " (by decide +kernel)
  have hcall := outlineFrom_of_kept .code .code "::runtime::validate(&" (by decide +kernel)
  have hhandover := outlineFrom_of_kept .code .lineStart ", data, options)\n" (by decide +kernel)
  have hbrace := outlineFrom_of_kept .lineStart .lineStart "\x7d\n" (by decide +kernel)
  have hinitialiser : ∀ follows, outlineFrom .lineStart ((indentation 1).toList ++
      (((Expression.call "Arc::new" .inline [planExpression statics plan]).render 1).toList ++
        follows)) = (indentation 1).toList ++
          (((initialiserOf statics plan).hidden.render 1).toList ++ outlineFrom .code follows) := by
    intro follows
    rw [outlineFrom_indented, ← initialiserOf, Expression.outlineFrom_render 1 _ hwords]
  unfold typeText staticText initialisedStatic routineText typeOutline
  simp only [String.toList_append, List.append_assoc]
  rw [hbreak, hstatic, outlineFrom_identifier (TypeNames.isTail_of_mem_static plan.name),
    hsignature, hinitialiser, hend, hclose, hbreak, outlineFrom_docComment hname, hfn,
    outlineFrom_identifier (TypeNames.isTail_of_mem_routine plan.name), harguments, hblanks,
    outlineFrom_path (isPathChar_of_isValid hcrate), hcall,
    outlineFrom_identifier (TypeNames.isTail_of_mem_static plan.name), hhandover, hbrace]

theorem outlineFrom_importsText {crate : String} (hcrate : CratePath.isValid crate = true)
    (rest : List Char) :
    outlineFrom .lineStart ((importsText crate).toList ++ rest) =
      (importsText crate).toList ++ outlineFrom .lineStart rest := by
  have hallow := outlineFrom_of_kept .lineStart .lineStart
    "#[allow(unused_imports)]\n" (by decide +kernel)
  have hsync := outlineFrom_of_kept .lineStart .lineStart
    "use std::sync::\x7bArc, LazyLock\x7d;\n\n" (by decide +kernel)
  have hvalue := outlineFrom_of_kept .lineStart .lineStart
    "use serde_json::Value;\n\n" (by decide +kernel)
  have huse := outlineFrom_of_kept .lineStart .code "use " (by decide +kernel)
  have hcompiler := outlineFrom_of_kept .code .lineStart
    "::compiler::\x7bCheck, ItemPlan, ObjectPlan, PropertyPlan, ValueKind\x7d;\n"
    (by decide +kernel)
  have hruntime := outlineFrom_of_kept .code .lineStart
    "::runtime::\x7bOutcome, ValidateOptions, ValidationFailure\x7d;\n" (by decide +kernel)
  have hschema := outlineFrom_of_kept .code .lineStart "::schema::Transform;\n" (by decide +kernel)
  have hpath := outlineFrom_path (isPathChar_of_isValid hcrate)
  unfold importsText
  simp only [String.toList_append, List.append_assoc]
  rw [hallow, hsync, hallow, hvalue, hallow, huse, hpath, hcompiler, hallow, huse, hpath, hruntime,
    hallow, huse, hpath, hschema]

/-- What is left of the types of a module. -/
def typeOutlines (crate : String) (statics : Entries String) (plans : List ObjectPlan) :
    List Char :=
  plans.flatMap fun plan => typeOutline crate (initialiserOf statics plan).hidden plan.name

theorem outlineFrom_typeTexts {crate : String} (hcrate : CratePath.isValid crate = true)
    {statics : Entries String} (hstatics : NamesStatics statics) {plans : List ObjectPlan}
    (hplans : ∀ plan ∈ plans, (commentOutline plan.name).1 = .lineStart) :
    outlineFrom .lineStart (String.join (plans.map fun plan =>
        typeText crate statics plan (.of plan.name))).toList =
      typeOutlines crate statics plans := by
  induction plans with
  | nil => rfl
  | cons plan rest ih =>
      obtain ⟨hplan, hrest⟩ := List.forall_mem_cons.mp hplans
      rw [List.map_cons, String.join_cons, String.toList_append,
        outlineFrom_typeText hcrate hplan (allWords_initialiserOf hstatics plan), ih hrest]
      rfl

/-- The outline of an emitted module. -/
theorem outline_of_emit {compiled : CompiledSchema} {options : EmitOptions} {text : String}
    (hcrate : CratePath.isValid options.runtimeCrate = true)
    (hnames : ∀ name ∈ compiled.typeNames, (commentOutline name).1 = .lineStart)
    (hemit : (compiled.emit options).outcome = .ok text) :
    outline text = String.ofList ((if options.header then ['\n'] else []) ++
      ((importsText options.runtimeCrate).toList ++
        typeOutlines options.runtimeCrate (staticsOf compiled.typeNames) compiled.plans)) := by
  have hplans : ∀ plan ∈ compiled.plans, (commentOutline plan.name).1 = .lineStart :=
    fun plan hplan => hnames plan.name (List.mem_map_of_mem hplan)
  have htypes := outlineFrom_typeTexts hcrate (namesStatics_staticsOf compiled.typeNames) hplans
  have hheader : ∀ rest, outlineFrom .lineStart ((if options.header then headerText else "").toList
      ++ rest) = (if options.header then ['\n'] else []) ++ outlineFrom .lineStart rest := by
    intro rest
    cases options.header with
    | true =>
        have hthrough : outlineThrough .lineStart headerText.toList = (.lineStart, ['\n']) := by
          decide +kernel
        simp only [if_true]
        rw [outlineFrom_append, hthrough]
    | false => rfl
  rw [(CompiledSchema.emit_eq_ok_iff.mp hemit).2, outline, String.toList_append,
    String.toList_append, List.append_assoc, hheader, outlineFrom_importsText hcrate]
  rw [← htypes]
  rfl

/-! ## Two runs -/

section Runs

variable {schema : Schema} {f : String → String}

theorem of_eq_of_snakeCase_eq {name name' : String} (h : snakeCase name = snakeCase name') :
    TypeNames.of name = TypeNames.of name' := by
  rw [TypeNames.of, TypeNames.of, h]

theorem map_snakeCase_rename (hsnake : ∀ name ∈ schema.names, snakeCase (f name) = snakeCase name) :
    (schema.names.map f).map snakeCase = schema.names.map snakeCase := by
  rw [List.map_map]
  exact List.map_congr_left hsnake

theorem nameable_rename (hsnake : ∀ name ∈ schema.names, snakeCase (f name) = snakeCase name)
    (h : TypeNames.Nameable schema.names) : TypeNames.Nameable (schema.names.map f) where
  ne_empty := by
    intro typeName hmem
    obtain ⟨name, hname, rfl⟩ := List.mem_map.mp hmem
    rw [hsnake name hname]
    exact h.ne_empty name hname
  nodup := by
    rw [map_snakeCase_rename hsnake]
    exact h.nodup

theorem keptApartBy_of_snakeCase
    (hsnake : ∀ name ∈ schema.names, snakeCase (f name) = snakeCase name)
    (h : TypeNames.Nameable schema.names) : schema.KeptApartBy f := by
  intro name hname name' hname' heq
  apply List.inj_on_of_nodup_map h.nodup hname hname'
  rw [← hsnake name hname, ← hsnake name' hname', heq]

/-- The initialisers for a type and for the type renamed have the same outline. -/
theorem hidden_initialiserOf_rename (hclosed : schema.Closed) (hacyclic : schema.Acyclic)
    (hsnake : ∀ name ∈ schema.names, snakeCase (f name) = snakeCase name)
    (hf : schema.KeptApartBy f) {name : String} (hname : name ∈ schema.names) :
    (initialiserOf (staticsOf (schema.rename f).names) ((schema.rename f).planOf (f name))).hidden =
      (initialiserOf (staticsOf schema.names) (schema.planOf name)).hidden := by
  obtain ⟨properties, hget⟩ := Entries.exists_get?_of_mem_names hname
  have hget' : (schema.rename f).get? (f name) = some (PropertySet.rename f properties) := by
    rw [Schema.get?_rename hf hname, hget]
    rfl
  have hstatics : ∀ target, PropertySet.Mentions properties target →
      HaveSameStatic (staticsOf schema.names) (staticsOf (schema.rename f).names)
        (schema.planOf target) ((schema.rename f).planOf (f target)) := by
    intro target hmentions
    have htarget := hclosed.target_mem_names ⟨properties, hget, hmentions⟩
    refine ⟨(TypeNames.of target).static, ?_, ?_⟩
    · rw [Schema.planOf_name]
      exact get?_staticsOf htarget
    · rw [Schema.planOf_name, ← of_eq_of_snakeCase_eq (hsnake target htarget)]
      apply get?_staticsOf
      rw [Schema.names_rename]
      exact List.mem_map_of_mem htarget
  have hproperties := propertyPlans_hidden properties name (f name) hstatics
  rw [Schema.planOf_eq hclosed.rename (hacyclic.rename hclosed hf) hget',
    Schema.planOf_eq hclosed hacyclic hget, initialiserOf, initialiserOf]
  simp only [planExpression, Expression.hidden, Expression.hiddenAll, hproperties]

theorem typeOutlines_rename (hclosed : schema.Closed) (hacyclic : schema.Acyclic)
    (hsnake : ∀ name ∈ schema.names, snakeCase (f name) = snakeCase name)
    (hcomment : ∀ name ∈ schema.names, commentOutline (f name) = commentOutline name)
    (hf : schema.KeptApartBy f) (crate : String) :
    typeOutlines crate (staticsOf (schema.rename f).names)
        ((schema.rename f).names.map (schema.rename f).planOf) =
      typeOutlines crate (staticsOf schema.names) (schema.names.map schema.planOf) := by
  have hnames : ∀ g : String → List Char,
      (schema.rename f).names.flatMap g = schema.names.flatMap (g ∘ f) := by
    intro g
    rw [Schema.names_rename, List.flatMap_map]
    rfl
  rw [typeOutlines, typeOutlines, List.flatMap_map, List.flatMap_map, hnames]
  apply List.flatMap_congr
  intro name hname
  rw [Function.comp_apply, hidden_initialiserOf_rename hclosed hacyclic hsnake hf hname,
    Schema.planOf_name, Schema.planOf_name, typeOutline, typeOutline, hcomment name hname,
    of_eq_of_snakeCase_eq (hsnake name hname)]

end Runs

/-- The types of a schema can be renamed without any change to the outline of its module,
as long as their names stay the same in snake case and have no line breaks: all that a
name adds to the text besides stands inside of string literals and of comments of one
line. -/
theorem outline_of_rename {schema : Schema} {compiled : CompiledSchema} {options : EmitOptions}
    {text : String} {f : String → String} (hcompile : schema.compile.outcome = .ok compiled)
    (hemit : (compiled.emit options).outcome = .ok text)
    (hcrate : CratePath.isValid options.runtimeCrate = true)
    (hsnake : ∀ name ∈ schema.names, snakeCase (f name) = snakeCase name)
    (hbreaks : ∀ name ∈ schema.names, '\n' ∉ name.toList ∧ '\n' ∉ (f name).toList) :
    ∃ compiled' text', (schema.rename f).compile.outcome = .ok compiled' ∧
      (compiled'.emit options).outcome = .ok text' ∧ outline text' = outline text := by
  obtain ⟨hclosed, hacyclic, hplans⟩ := Schema.of_compile_eq_ok hcompile
  have htypeNames := Schema.typeNames_of_compile hcompile
  have hnameable := (CompiledSchema.emit_eq_ok_iff.mp hemit).1
  rw [htypeNames] at hnameable
  have hf := keptApartBy_of_snakeCase hsnake hnameable
  -- the renamed schema compiles and its types can be named as those of the schema
  obtain ⟨compiled', hcompile'⟩ : ∃ compiled', (schema.rename f).compile.outcome = .ok compiled' :=
    ⟨_, Schema.compile_of_acyclic hclosed.rename (hacyclic.rename hclosed hf)⟩
  have hplans' := (Schema.of_compile_eq_ok hcompile').2.2
  have htypeNames' := Schema.typeNames_of_compile hcompile'
  have hnameable' : TypeNames.Nameable compiled'.typeNames := by
    rw [htypeNames', Schema.names_rename]
    exact nameable_rename hsnake hnameable
  obtain ⟨text', hemit'⟩ : ∃ text', (compiled'.emit options).outcome = .ok text' :=
    ⟨_, CompiledSchema.emit_eq_ok_iff.mpr ⟨hnameable', rfl⟩⟩
  refine ⟨compiled', text', hcompile', hemit', ?_⟩
  -- no name leaves anything behind its comment
  have hcomment : ∀ name ∈ schema.names, commentOutline name = (.lineStart, []) :=
    fun name hname => commentOutline_of_not_mem (hbreaks name hname).1
  have hcomment' : ∀ name ∈ schema.names, commentOutline (f name) = (.lineStart, []) :=
    fun name hname => commentOutline_of_not_mem (hbreaks name hname).2
  have houtline := outline_of_emit hcrate (by
    rw [htypeNames]
    exact fun name hname => congrArg Prod.fst (hcomment name hname)) hemit
  have houtline' := outline_of_emit hcrate (by
    rw [htypeNames', Schema.names_rename]
    intro typeName hmem
    obtain ⟨name, hname, rfl⟩ := List.mem_map.mp hmem
    exact congrArg Prod.fst (hcomment' name hname)) hemit'
  rw [houtline', houtline, htypeNames', htypeNames, hplans', hplans,
    typeOutlines_rename hclosed hacyclic hsnake
      (fun name hname => (hcomment' name hname).trans (hcomment name hname).symm) hf]

/-- Orders can be renamed by a quote at the end of each name. -/
theorem outline_of_quoted_orders :
    ∃ compiled text, Schema.orders.compile.outcome = .ok compiled ∧
      (compiled.emit .standard).outcome = .ok text ∧
      CratePath.isValid EmitOptions.standard.runtimeCrate = true ∧
      (∀ name ∈ Schema.orders.names, snakeCase (name ++ "\"") = snakeCase name) ∧
      (∀ name ∈ Schema.orders.names, '\n' ∉ name.toList ∧ '\n' ∉ (name ++ "\"").toList) ∧
      ∃ compiled' text', (Schema.orders.rename (· ++ "\"")).compile.outcome = .ok compiled' ∧
        (compiled'.emit .standard).outcome = .ok text' ∧ outline text' = outline text := by
  obtain ⟨compiled, hcompile⟩ := Schema.exists_compile_orders
  have hnameable : TypeNames.Nameable compiled.typeNames := by
    rw [Schema.typeNames_of_compile hcompile]
    exact ⟨by decide, by decide⟩
  obtain ⟨text, hemit⟩ : ∃ text, (compiled.emit .standard).outcome = .ok text :=
    ⟨_, CompiledSchema.emit_eq_ok_iff.mpr ⟨hnameable, rfl⟩⟩
  have hcrate : CratePath.isValid EmitOptions.standard.runtimeCrate = true := by decide
  have hsnake : ∀ name ∈ Schema.orders.names, snakeCase (name ++ "\"") = snakeCase name := by
    decide
  have hbreaks : ∀ name ∈ Schema.orders.names,
      '\n' ∉ name.toList ∧ '\n' ∉ (name ++ "\"").toList := by decide
  exact ⟨compiled, text, hcompile, hemit, hcrate, hsnake, hbreaks,
    outline_of_rename hcompile hemit hcrate hsnake hbreaks⟩

/-! ## Line breaks in names -/

theorem compile_bare (name : String) :
    (Schema.compile [(name, [])]).outcome = .ok ⟨[⟨name, []⟩]⟩ :=
  Schema.compile_without_properties [name]

/-- What stands behind a line break in a name is read as code. -/
theorem outline_of_lineBreak :
    ∃ compiled text compiled' text',
      (Schema.compile [("A b", [])]).outcome = .ok compiled ∧
      (compiled.emit .standard).outcome = .ok text ∧
      (Schema.rename (fun _ => "A\nb") [("A b", [])]).compile.outcome = .ok compiled' ∧
      (compiled'.emit .standard).outcome = .ok text' ∧
      CratePath.isValid EmitOptions.standard.runtimeCrate = true ∧
      snakeCase "A\nb" = snakeCase "A b" ∧ outline text' ≠ outline text := by
  have hemit : ∀ name, snakeCase name ≠ "" →
      ∃ text, (CompiledSchema.emit ⟨[⟨name, []⟩]⟩ .standard).outcome = .ok text := by
    intro name hname
    refine ⟨_, CompiledSchema.emit_eq_ok_iff.mpr ⟨⟨?_, ?_⟩, rfl⟩⟩
    · simpa [CompiledSchema.typeNames] using hname
    · simp [CompiledSchema.typeNames]
  obtain ⟨text, htext⟩ := hemit "A b" (by decide)
  obtain ⟨text', htext'⟩ := hemit "A\nb" (by decide)
  have hcrate : CratePath.isValid EmitOptions.standard.runtimeCrate = true := by decide
  have hsnake : snakeCase "A\nb" = snakeCase "A b" := by decide
  refine ⟨_, text, _, text', compile_bare "A b", htext, compile_bare "A\nb", htext', hcrate, hsnake,
    ?_⟩
  have hcomment : (commentOutline "A b") = (.lineStart, []) := commentOutline_of_not_mem (by decide)
  have hcomment' : (commentOutline "A\nb") = (.lineStart, "b` record.\n".toList) := by
    decide +kernel
  have houtline := outline_of_emit hcrate (by simp [CompiledSchema.typeNames, hcomment]) htext
  have houtline' := outline_of_emit hcrate (by simp [CompiledSchema.typeNames, hcomment']) htext'
  rw [houtline, houtline', Ne, String.ofList_inj]
  intro heq
  have htypes := List.append_cancel_left (List.append_cancel_left heq)
  simp only [typeOutlines, List.flatMap_cons, List.flatMap_nil, typeOutline,
    hcomment, hcomment', of_eq_of_snakeCase_eq hsnake, initialiserOf, planExpression,
    propertyExpressions, Expression.hidden, Expression.hiddenAll] at htypes
  rw [List.append_left_inj, List.append_left_inj, List.append_right_inj] at htypes
  revert htypes
  decide

end Emission

end RecordSchema
