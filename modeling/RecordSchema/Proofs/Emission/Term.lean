import Mathlib.Data.List.Forall2
import RecordSchema.Proofs.Emission.Token

/-!
# Terms of emitted code

A `Term` is an expression of emitted code as a reader understands it: without its
layout, with strings in place of their literals. `Term.ofTokens?` reads one from its
tokens, with a stack of the brackets that are open.

Main statements: calls and vectors are read from what their parts are read as, in
either layout, `readsAs_call` and `readsAs_vector`.
-/

namespace RecordSchema

namespace Emission

/-- An expression of emitted code as it is understood. -/
inductive Term where
  /-- A path, a number or a truth value. -/
  | word (text : String)
  | literal (text : String)
  /-- A string literal made into an owned string. -/
  | owned (text : String)
  /-- The value of a static. -/
  | static (name : String)
  | call (head : String) (arguments : List Term)
  | vector (items : List Term)

/-- A bracket that is open: that of a call or, without a head, of a vector. -/
structure Opening where
  head : Option String
  items : List Term

namespace Term

/-- Reads tokens behind some openings and, if the last thing read was a term, behind
that term. -/
def readFrom : List Token → List Opening → Option Term → Option Term
  | [], [], last => last
  | .word text :: rest, openings, none => readFrom rest openings (some (.word text))
  | .literal text :: rest, openings, none => readFrom rest openings (some (.literal text))
  | .symbol '&' :: .symbol '*' :: .word name :: rest, openings, none =>
    readFrom rest openings (some (.static name))
  | .symbol ':' :: .symbol ':' :: .word text :: rest, openings, some (.word front) =>
    readFrom rest openings (some (.word (front ++ "::" ++ text)))
  | .symbol '.' :: .word "to_string" :: .symbol '(' :: .symbol ')' :: rest, openings,
      some (.literal text) =>
    readFrom rest openings (some (.owned text))
  | .symbol '(' :: rest, openings, some (.word head) =>
    readFrom rest (⟨some head, []⟩ :: openings) none
  | .symbol '!' :: .symbol '[' :: rest, openings, some (.word "vec") =>
    readFrom rest (⟨none, []⟩ :: openings) none
  | .symbol ',' :: rest, ⟨head, items⟩ :: openings, some last =>
    readFrom rest (⟨head, items ++ [last]⟩ :: openings) none
  | .symbol ')' :: rest, ⟨some head, items⟩ :: openings, last =>
    readFrom rest openings (some (.call head (items ++ last.toList)))
  | .symbol ']' :: rest, ⟨none, items⟩ :: openings, last =>
    readFrom rest openings (some (.vector (items ++ last.toList)))
  | _, _, _ => none

/-- The term that makes up all of the tokens. -/
def ofTokens? (tokens : List Token) : Option Term :=
  readFrom tokens [] none

end Term

/-- The tokens are read as the term, wherever a term may start. -/
def ReadsAs (tokens : List Token) (term : Term) : Prop :=
  ∀ rest openings,
    Term.readFrom (tokens ++ rest) openings none = Term.readFrom rest openings (some term)

theorem ofTokens?_of_readsAs {tokens : List Token} {term : Term} (h : ReadsAs tokens term) :
    Term.ofTokens? tokens = some term := by
  have hread := h [] []
  rwa [List.append_nil] at hread

theorem readsAs_word (text : String) : ReadsAs [.word text] (.word text) :=
  fun _ _ => rfl

theorem readsAs_literal (text : String) :
    ReadsAs (Expression.literal text).tokens (.literal text) :=
  fun _ _ => rfl

theorem readsAs_owned (text : String) : ReadsAs (Expression.owned text).tokens (.owned text) :=
  fun _ _ => rfl

theorem readsAs_static (name : String) :
    ReadsAs [.symbol '&', .symbol '*', .word name] (.static name) :=
  fun _ _ => rfl

/-- The expressions are read as the terms, one by one. -/
def ReadAs (expressions : List Expression) (terms : List Term) : Prop :=
  List.Forall₂ (fun expression term => ReadsAs expression.tokens term) expressions terms

theorem readAs_nil : ReadAs [] [] := .nil

theorem ReadAs.cons {expression : Expression} {term : Term} {expressions : List Expression}
    {terms : List Term} (h : ReadsAs expression.tokens term) (hrest : ReadAs expressions terms) :
    ReadAs (expression :: expressions) (term :: terms) :=
  List.Forall₂.cons h hrest

/-! ## Lists -/

namespace Opening

/-- The token that closes the bracket. -/
def closing : Option String → Token
  | some _ => .symbol ')'
  | none => .symbol ']'

/-- The term that the bracket makes of what is in it. -/
def term : Option String → List Term → Term
  | some head, items => .call head items
  | none, items => .vector items

end Opening

theorem readFrom_closing (head : Option String) (items : List Term) (last : Option Term)
    (rest : List Token) (openings : List Opening) :
    Term.readFrom (Opening.closing head :: rest) (⟨head, items⟩ :: openings) last =
      Term.readFrom rest openings (some (Opening.term head (items ++ last.toList))) := by
  cases head <;> rfl

theorem readFrom_comma (head : Option String) (items : List Term) (last : Term)
    (rest : List Token) (openings : List Opening) :
    Term.readFrom (.symbol ',' :: rest) (⟨head, items⟩ :: openings) (some last) =
      Term.readFrom rest (⟨head, items ++ [last]⟩ :: openings) none := rfl

section Lists

variable {expressions : List Expression} {terms : List Term}

theorem readFrom_tailTokens
    (h : ReadAs expressions terms)
    (head : Option String) (items : List Term) (last : Term) (rest : List Token)
    (openings : List Opening) :
    Term.readFrom (Expression.tailTokens expressions ++ Opening.closing head :: rest)
        (⟨head, items⟩ :: openings) (some last) =
      Term.readFrom rest openings (some (Opening.term head (items ++ last :: terms))) := by
  induction h generalizing items last with
  | nil => exact readFrom_closing head items (some last) rest openings
  | cons hfirst _ ih =>
      rw [Expression.tailTokens, List.cons_append, List.cons_append, readFrom_comma,
        List.append_assoc, hfirst, ih, List.append_assoc, List.singleton_append]

theorem readFrom_inlineTokens
    (h : ReadAs expressions terms)
    (head : Option String) (rest : List Token) (openings : List Opening) :
    Term.readFrom (Expression.inlineTokens expressions ++ Opening.closing head :: rest)
        (⟨head, []⟩ :: openings) none =
      Term.readFrom rest openings (some (Opening.term head terms)) := by
  cases h with
  | nil => exact readFrom_closing head [] none rest openings
  | cons hfirst hrest =>
      rw [Expression.inlineTokens, List.append_assoc, hfirst, readFrom_tailTokens hrest,
        List.nil_append]

theorem readFrom_blockTokens
    (h : ReadAs expressions terms)
    (head : Option String) (items : List Term) (rest : List Token) (openings : List Opening) :
    Term.readFrom (Expression.blockTokens expressions ++ Opening.closing head :: rest)
        (⟨head, items⟩ :: openings) none =
      Term.readFrom rest openings (some (Opening.term head (items ++ terms))) := by
  induction h generalizing items with
  | nil => exact readFrom_closing head items none rest openings
  | cons hfirst _ ih =>
      rw [Expression.blockTokens, List.append_assoc, hfirst, List.cons_append, readFrom_comma, ih,
        List.append_assoc, List.singleton_append]

/-- A call is read as a call in either layout. -/
theorem readsAs_call {head : String} (hhead : ReadsAs (tokens head) (.word head))
    (layout : Layout)
    (h : ReadAs expressions terms) :
    ReadsAs (Expression.call head layout expressions).tokens (.call head terms) := by
  intro rest openings
  have hopen : ∀ inside : List Token,
      Term.readFrom (tokens head ++ .symbol '(' :: inside) openings none =
        Term.readFrom inside (⟨some head, []⟩ :: openings) none := by
    intro inside
    rw [hhead]
    rfl
  cases layout with
  | inline =>
      have hinside := readFrom_inlineTokens h (some head) rest openings
      rw [Expression.tokens, List.append_assoc, List.append_assoc, List.cons_append, hopen]
      exact hinside
  | block =>
      have hinside := readFrom_blockTokens h (some head) [] rest openings
      rw [Expression.tokens, List.append_assoc, List.append_assoc, List.cons_append, hopen]
      exact hinside

theorem readsAs_vector (layout : Layout)
    (h : ReadAs expressions terms) :
    ReadsAs (Expression.vector layout expressions).tokens (.vector terms) := by
  intro rest openings
  cases layout with
  | inline =>
      have hinside := readFrom_inlineTokens h none rest openings
      rw [Expression.tokens, List.append_assoc]
      exact hinside
  | block =>
      have hinside := readFrom_blockTokens h none [] rest openings
      rw [Expression.tokens, List.append_assoc]
      exact hinside

end Lists

/-! ## Words that are read as themselves -/

/-- A text is read as a word of the same text. -/
def ReadsAsItself (text : String) : Prop :=
  ReadsAs (tokens text) (.word text)

theorem readsAsItself_of_isTail {text : String} (hne : text ≠ "")
    (h : ∀ c ∈ text.toList, CratePath.isTail c = true) : ReadsAsItself text := by
  rw [ReadsAsItself, tokens_of_isTail hne h]
  exact readsAs_word text

theorem readsAsItself_of_bool (flag : Bool) :
    ReadsAsItself (if flag then "true" else "false") := by
  cases flag <;> exact fun _ _ => rfl

theorem readsAsItself_toNat (n : Nat) : ReadsAsItself (toString n) :=
  readsAsItself_of_isTail (toString_ne_empty n) (isTail_of_mem_toString n)

end Emission

end RecordSchema
