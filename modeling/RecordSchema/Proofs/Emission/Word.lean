import RecordSchema.Emission.Plan
import RecordSchema.Proofs.Emission.Token

/-!
# Words of emitted code

The words in the expression for a plan are paths, `Expression.allWords_planExpression`,
and so is the crate that a module imports its runtime from, `isPathChar_of_isValid`. So
no brace stands among the tokens of an expression, `Expression.brace_not_mem_tokens`.
-/

namespace RecordSchema

namespace Emission

/-! ## Paths -/

/-- The symbols of a path are characters of it. -/
theorem mem_of_symbol_mem {path : List Char} (hpath : ∀ c ∈ path, isPathChar c = true) (c : Char) :
    (.symbol c ∈ tokensFrom .code path → c ∈ path) ∧
      ∀ front, .symbol c ∈ tokensFrom (.word front) path → c ∈ path := by
  induction path with
  | nil => simp [tokensFrom, Place.finish]
  | cons d path ih =>
      obtain ⟨hcode, hword⟩ := ih fun e he => hpath e (List.mem_cons_of_mem _ he)
      have hrest : c ∈ path → c ∈ d :: path := List.mem_cons_of_mem d
      rcases step_of_isPathChar (hpath d List.mem_cons_self) with ⟨hstep, hstep'⟩ | ⟨hstep, hstep'⟩
      · simp only [tokensFrom_cons, hstep, hstep', List.nil_append]
        exact ⟨fun hmem => hrest (hword [d] hmem), fun front hmem => hrest (hword _ hmem)⟩
      · simp only [tokensFrom_cons, hstep, hstep', List.cons_append, List.nil_append,
          List.mem_cons, reduceCtorEq, false_or]
        have hcases : Token.symbol c = .symbol d ∨ .symbol c ∈ tokensFrom .code path →
            c = d ∨ c ∈ path := by
          rintro (heq | hmem)
          · cases heq
            exact .inl rfl
          · exact .inr (hcode hmem)
        exact ⟨hcases, fun _ => hcases⟩

theorem symbol_not_mem {path : List Char} (hpath : ∀ c ∈ path, isPathChar c = true) {c : Char}
    (hc : isPathChar c = false) : .symbol c ∉ tokensFrom .code path := by
  intro hmem
  rw [hpath c ((mem_of_symbol_mem hpath c).1 hmem)] at hc
  cases hc

theorem isTail_of_isHead {c : Char} (h : CratePath.isHead c = true) :
    CratePath.isTail c = true := by
  simp only [CratePath.isHead, CratePath.isTail, Char.isAlphanum, Bool.or_eq_true] at h ⊢
  exact h.imp_left .inl

theorem isTail_of_isIdentifier {text : List Char} (h : CratePath.isIdentifier text = true) :
    ∀ c ∈ text, CratePath.isTail c = true := by
  cases text with
  | nil => simp
  | cons c rest =>
      rw [CratePath.isIdentifier, Bool.and_eq_true, List.all_eq_true] at h
      exact List.forall_mem_cons.mpr ⟨isTail_of_isHead h.1, h.2⟩

theorem isPathChar_of_isTail {c : Char} (h : CratePath.isTail c = true) : isPathChar c = true := by
  simp [isPathChar, h]

/-- A character of a text is a colon or stands in one of the segments. -/
theorem mem_segments {c : Char} (path : List Char) (h : c ∈ path) :
    c = ':' ∨ ∃ segment ∈ CratePath.segments path, c ∈ segment := by
  fun_induction CratePath.segments path with
  | case1 => cases h
  | case2 rest ih =>
      rcases List.mem_cons.mp h with rfl | h
      · exact .inl rfl
      rcases List.mem_cons.mp h with rfl | h
      · exact .inl rfl
      rcases ih h with hcolon | ⟨segment, hsegment, hmem⟩
      · exact .inl hcolon
      · exact .inr ⟨segment, List.mem_cons_of_mem _ hsegment, hmem⟩
  | case3 d rest _ hnone ih =>
      rcases List.mem_cons.mp h with rfl | h
      · exact .inr ⟨[c], by simp, by simp⟩
      rcases ih h with hcolon | ⟨segment, hsegment, -⟩
      · exact .inl hcolon
      · rw [hnone] at hsegment
        cases hsegment
  | case4 d rest _ piece pieces hpieces ih =>
      rcases List.mem_cons.mp h with rfl | h
      · exact .inr ⟨c :: piece, by simp, by simp⟩
      rcases ih h with hcolon | ⟨segment, hsegment, hmem⟩
      · exact .inl hcolon
      · rw [hpieces] at hsegment
        rcases List.mem_cons.mp hsegment with rfl | hsegment
        · exact .inr ⟨d :: segment, by simp, List.mem_cons_of_mem _ hmem⟩
        · exact .inr ⟨segment, List.mem_cons_of_mem _ hsegment, hmem⟩

theorem of_mem_of_isValid {crate : String} (h : CratePath.isValid crate = true) {c : Char}
    (hc : c ∈ crate.toList) : c = ':' ∨ CratePath.isTail c = true := by
  rw [CratePath.isValid, List.all_eq_true] at h
  rcases mem_segments crate.toList hc with hcolon | ⟨segment, hsegment, hmem⟩
  · exact .inl hcolon
  · exact .inr (isTail_of_isIdentifier (h segment hsegment) c hmem)

theorem isPathChar_of_isValid {crate : String} (h : CratePath.isValid crate = true) :
    ∀ c ∈ crate.toList, isPathChar c = true := by
  intro c hc
  rcases of_mem_of_isValid h hc with rfl | htail
  · decide
  · exact isPathChar_of_isTail htail

namespace Expression

mutual

theorem brace_not_mem_tokens :
    ∀ expression : Expression, expression.AllWords IsPath → .symbol '\x7d' ∉ expression.tokens
  | word text, h => by
      rw [AllWords] at h
      rw [tokens]
      exact symbol_not_mem h (by decide)
  | literal _, _ => by simp [tokens]
  | owned _, _ => by simp [tokens]
  | call head layout arguments, h => by
      rw [AllWords] at h
      have hhead : .symbol '\x7d' ∉ Emission.tokens head := symbol_not_mem h.1 (by decide)
      have harguments := brace_not_mem_blockTokens arguments h.2
      cases layout <;> simp [tokens, hhead, harguments]
  | vector layout items, h => by
      rw [AllWords] at h
      have hitems := brace_not_mem_blockTokens items h
      cases layout <;> simp [tokens, hitems]

theorem brace_not_mem_blockTokens :
    ∀ expressions : List Expression, AllWordsOf IsPath expressions →
      .symbol '\x7d' ∉ blockTokens expressions ∧ .symbol '\x7d' ∉ inlineTokens expressions ∧
        .symbol '\x7d' ∉ tailTokens expressions
  | [], _ => by simp [blockTokens, inlineTokens, tailTokens]
  | expression :: rest, h => by
      rw [AllWordsOf] at h
      have hfirst := brace_not_mem_tokens expression h.1
      have hrest := brace_not_mem_blockTokens rest h.2
      simp [blockTokens, inlineTokens, tailTokens, hfirst, hrest]

end

end Expression

/-! ## The expression for a plan -/

/-- The names of the statics have only characters of identifiers. -/
def NamesStatics (statics : Entries String) : Prop :=
  ∀ name static, statics.get? name = some static → ∀ c ∈ static.toList, CratePath.isTail c = true

namespace Expression

theorem isPath_of_all {text : String} (h : text.toList.all isPathChar = true) : IsPath text :=
  List.all_eq_true.mp h

theorem isPath_toString (n : Nat) : IsPath (toString n) := fun c hc =>
  isPathChar_of_isTail (isTail_of_mem_toString n c hc)

theorem allWords_transformsExpression (transforms : List Transform) :
    (transformsExpression transforms).AllWords IsPath := by
  rw [transformsExpression, AllWords]
  induction transforms with
  | nil => trivial
  | cons transform rest ih =>
      rw [List.map_cons, AllWordsOf, AllWords]
      refine ⟨?_, ih⟩
      cases transform <;> exact isPath_of_all (by decide)

section Plans

variable {statics : Entries String}

mutual

theorem allWords_planExpression (h : NamesStatics statics) :
    ∀ plan : ObjectPlan, (planExpression statics plan).AllWords IsPath
  | ⟨name, properties⟩ => by
      have hproperties := allWords_propertyExpressions h properties
      rw [planExpression]
      simp only [AllWords, AllWordsOf]
      exact ⟨isPath_of_all (by decide), trivial, hproperties, trivial⟩

theorem allWords_propertyExpressions (h : NamesStatics statics) :
    ∀ properties : List PropertyPlan, AllWordsOf IsPath (propertyExpressions statics properties)
  | [] => trivial
  | property :: rest => by
      rw [propertyExpressions, AllWordsOf]
      exact ⟨allWords_propertyExpression h property, allWords_propertyExpressions h rest⟩

theorem allWords_propertyExpression (h : NamesStatics statics) :
    ∀ property : PropertyPlan, (propertyExpression statics property).AllWords IsPath
  | ⟨key, required, transforms, checks⟩ => by
      have hrequired : IsPath (if required then "true" else "false") := by
        cases required <;> exact isPath_of_all (by decide)
      have hchecks := allWords_checkExpressions h checks
      rw [propertyExpression]
      simp only [AllWords, AllWordsOf]
      exact ⟨isPath_of_all (by decide), trivial, hrequired,
        allWords_transformsExpression transforms, hchecks, trivial⟩

theorem allWords_checkExpressions (h : NamesStatics statics) :
    ∀ checks : List Check, AllWordsOf IsPath (checkExpressions statics checks)
  | [] => trivial
  | check :: rest => by
      rw [checkExpressions, AllWordsOf]
      exact ⟨allWords_checkExpression h check, allWords_checkExpressions h rest⟩

theorem allWords_checkExpression (h : NamesStatics statics) :
    ∀ check : Check, (checkExpression statics check).AllWords IsPath
  | .kind kind => by
      rw [checkExpression]
      simp only [AllWords, AllWordsOf]
      refine ⟨isPath_of_all (by decide), ?_, trivial⟩
      cases kind <;> exact isPath_of_all (by decide)
  | .integer => by
      rw [checkExpression, AllWords]
      exact isPath_of_all (by decide)
  | .startsWith _ => by
      rw [checkExpression]
      simp only [AllWords, AllWordsOf]
      exact ⟨isPath_of_all (by decide), trivial, trivial⟩
  | .minLength length => by
      rw [checkExpression]
      simp only [AllWords, AllWordsOf]
      exact ⟨isPath_of_all (by decide), isPath_toString length.toNat, trivial⟩
  | .fields plan => by
      have hplan := allWords_planExpression h plan
      rw [checkExpression]
      simp only [AllWords, AllWordsOf]
      exact ⟨isPath_of_all (by decide), ⟨isPath_of_all (by decide), hplan, trivial⟩, trivial⟩
  | .reference plan => by
      have hplan := allWords_planExpression h plan
      rw [checkExpression]
      cases hget : statics.get? plan.name with
      | some static =>
          have hmark : IsPath "&*" := isPath_of_all (by decide)
          have hstatic : IsPath ("&*" ++ static) := by
            intro c hc
            rw [String.toList_append, List.mem_append] at hc
            rcases hc with hc | hc
            · exact hmark c hc
            · exact isPathChar_of_isTail (h plan.name static hget c hc)
          simp only [AllWords, AllWordsOf]
          exact ⟨isPath_of_all (by decide), ⟨isPath_of_all (by decide), hstatic, trivial⟩, trivial⟩
      | none =>
          simp only [AllWords, AllWordsOf]
          exact ⟨isPath_of_all (by decide), ⟨isPath_of_all (by decide), hplan, trivial⟩, trivial⟩
  | .items checks => by
      have hchecks := allWords_checkExpressions h checks
      rw [checkExpression]
      simp only [AllWords, AllWordsOf]
      exact ⟨isPath_of_all (by decide), ⟨isPath_of_all (by decide), ⟨isPath_of_all (by decide),
        hchecks, trivial⟩, trivial⟩, trivial⟩

end

end Plans

end Expression

end Emission

end RecordSchema
