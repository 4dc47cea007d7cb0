import RecordSchema.Command.CratePath
import RecordSchema.Document.Lexeme
import RecordSchema.Emission.Expression

/-!
# Tokens of emitted code

A reader of emitted code sees words, string literals with their escapes decoded, and
symbols of one character. Blanks and comments are left out. The reader goes once
through the text and holds its `Place` in it, so that what it makes of a text that is
put together from pieces is put together from what it makes of the pieces.

Main statements: the literal of a text is read as that text, `tokensFrom_literal`, and
a rendered expression as the tokens of its parts, `tokensFrom_render`.
-/

namespace RecordSchema

namespace Emission

/-- A token of emitted code. -/
inductive Token where
  /-- Letters, digits and underscores. -/
  | word (text : String)
  | literal (text : String)
  | symbol (c : Char)
  deriving DecidableEq

/-- Where in a text a reader stands. `front` is what it has read of a word or of a
literal. -/
inductive Place where
  | code
  | word (front : List Char)
  /-- Behind a slash, which may start a comment. -/
  | slash
  | comment
  | literal (front : List Char)
  /-- Behind a backslash. -/
  | escape (front : List Char)
  /-- Behind a backslash and the letter of a code point. -/
  | codePointStart (front : List Char)
  /-- In the hexadecimal digits of a code point. -/
  | codePoint (front : List Char) (value : Nat)
  /-- Behind an escape that stands for nothing. -/
  | broken
  deriving DecidableEq

/-- The character that an escape of one letter stands for. -/
def escapedChar? : Char → Option Char
  | '0' => some '\x00'
  | 't' => some '\t'
  | 'n' => some '\n'
  | 'r' => some '\r'
  | '"' => some '"'
  | '\\' => some '\\'
  | _ => none

namespace Place

/-- How a character is read in code. -/
def enter (c : Char) : Place × List Token :=
  if c = '"' then (literal [], [])
  else if c.isWhitespace then (code, [])
  else if CratePath.isTail c then (word [c], [])
  else if c = '/' then (slash, [])
  else (code, [.symbol c])

/-- How a character is read. -/
def step : Place → Char → Place × List Token
  | code, c => enter c
  | word front, c =>
    if CratePath.isTail c then (word (front ++ [c]), [])
    else ((enter c).1, .word (String.ofList front) :: (enter c).2)
  | slash, c => if c = '/' then (comment, []) else ((enter c).1, .symbol '/' :: (enter c).2)
  | comment, c => if c = '\n' then (code, []) else (comment, [])
  | literal front, c =>
    if c = '"' then (code, [.literal (String.ofList front)])
    else if c = '\\' then (escape front, [])
    else (literal (front ++ [c]), [])
  | escape front, c =>
    if c = 'u' then (codePointStart front, [])
    else match escapedChar? c with
      | some d => (literal (front ++ [d]), [])
      | none => (broken, [])
  | codePointStart front, c => if c = '\x7b' then (codePoint front 0, []) else (broken, [])
  | codePoint front value, c =>
    if c = '\x7d' then (literal (front ++ [Char.ofNat value]), [])
    else match hexDigit? c with
      | some digit => (codePoint front (16 * value + digit), [])
      | none => (broken, [])
  | broken, _ => (broken, [])

/-- What is read at the end of a text. A literal that does not end is a quote. -/
def finish : Place → List Token
  | code => []
  | word front => [.word (String.ofList front)]
  | slash => [.symbol '/']
  | comment => []
  | _ => [.symbol '"']

end Place

/-- The tokens of a text that is read from a place on. -/
def tokensFrom (place : Place) : List Char → List Token
  | [] => place.finish
  | c :: rest => (place.step c).2 ++ tokensFrom (place.step c).1 rest

/-- The tokens of a text. -/
def tokens (text : String) : List Token :=
  tokensFrom .code text.toList

/-- Where a reader gets to with a text, and what it has read by then. -/
def readThrough : Place → List Char → Place × List Token
  | place, [] => (place, [])
  | place, c :: rest =>
    let next := place.step c
    let others := readThrough next.1 rest
    (others.1, next.2 ++ others.2)

theorem tokensFrom_cons (place : Place) (c : Char) (rest : List Char) :
    tokensFrom place (c :: rest) = (place.step c).2 ++ tokensFrom (place.step c).1 rest := rfl

theorem tokensFrom_append (place : Place) (front rest : List Char) :
    tokensFrom place (front ++ rest) =
      (readThrough place front).2 ++ tokensFrom (readThrough place front).1 rest := by
  induction front generalizing place with
  | nil => rfl
  | cons c front ih =>
      rw [List.cons_append, tokensFrom_cons, ih, ← List.append_assoc]
      rfl

/-- A text at whose end no token is left open is read by itself. -/
theorem tokensFrom_of_settled {text : String} (h : (readThrough .code text.toList).1 = .code)
    (rest : List Char) :
    tokensFrom .code (text.toList ++ rest) = tokens text ++ tokensFrom .code rest := by
  have htokens : tokens text = (readThrough .code text.toList).2 := by
    have happend := tokensFrom_append .code text.toList []
    rw [h, List.append_nil] at happend
    rw [tokens, happend]
    exact List.append_nil _
  rw [tokensFrom_append, h, htokens]

/-! ## Words, blanks and comments -/

theorem tokensFrom_word {word : List Char} (hword : ∀ c ∈ word, CratePath.isTail c = true)
    (front rest : List Char) :
    tokensFrom (.word front) (word ++ rest) = tokensFrom (.word (front ++ word)) rest := by
  induction word generalizing front with
  | nil => rw [List.nil_append, List.append_nil]
  | cons c word ih =>
      have hstep : Place.step (.word front) c = (.word (front ++ [c]), []) := by
        rw [Place.step, if_pos (hword c List.mem_cons_self)]
      rw [List.cons_append, tokensFrom_cons, hstep, List.nil_append,
        ih fun d hd => hword d (List.mem_cons_of_mem _ hd)]
      simp

/-- A word ends where a character comes that cannot stand in it. -/
theorem tokensFrom_word_end {c : Char} (hc : CratePath.isTail c = false) (front rest : List Char) :
    tokensFrom (.word front) (c :: rest) =
      .word (String.ofList front) :: tokensFrom .code (c :: rest) := by
  have hstep : Place.step (.word front) c =
      ((Place.enter c).1, .word (String.ofList front) :: (Place.enter c).2) := by
    rw [Place.step, hc, if_neg Bool.false_ne_true]
  rw [tokensFrom_cons, hstep]
  rfl

theorem tokensFrom_lineBreak (rest : List Char) :
    tokensFrom .code ('\n' :: rest) = tokensFrom .code rest := rfl

theorem tokensFrom_blanks (n : Nat) (rest : List Char) :
    tokensFrom .code (List.replicate n ' ' ++ rest) = tokensFrom .code rest := by
  induction n with
  | zero => rfl
  | succ n ih => rw [List.replicate_succ, List.cons_append, tokensFrom_cons]; exact ih

theorem tokensFrom_indentation (depth : Nat) (rest : List Char) :
    tokensFrom .code ((indentation depth).toList ++ rest) = tokensFrom .code rest := by
  rw [indentation, String.toList_ofList, tokensFrom_blanks]

/-- A comment goes on to the end of its line. -/
theorem tokensFrom_comment {text : List Char} (h : '\n' ∉ text) (rest : List Char) :
    tokensFrom .comment (text ++ rest) = tokensFrom .comment rest := by
  induction text with
  | nil => rfl
  | cons c text ih =>
      rw [List.mem_cons, not_or] at h
      have hstep : Place.step .comment c = (.comment, []) := if_neg (Ne.symm h.1)
      rw [List.cons_append, tokensFrom_cons, hstep, List.nil_append, ih h.2]

/-! ## Literals -/

theorem hexDigit?_digitChar {digit : Nat} (h : digit < 16) :
    hexDigit? digit.digitChar = some digit ∧ digit.digitChar ≠ '\x7d' := by
  revert digit
  decide

/-- The digits of a number are read as that number. -/
theorem tokensFrom_toDigits (front : List Char) (n : Nat) (rest : List Char) :
    tokensFrom (.codePoint front 0) (Nat.toDigits 16 n ++ rest) =
      tokensFrom (.codePoint front n) rest := by
  induction n using Nat.strongRecOn generalizing rest with
  | ind n ih =>
      have hlast : ∀ value, ∀ digit < 16, tokensFrom (.codePoint front value)
          (digit.digitChar :: rest) = tokensFrom (.codePoint front (16 * value + digit)) rest := by
        intro value digit hdigit
        obtain ⟨hvalue, hne⟩ := hexDigit?_digitChar hdigit
        rw [tokensFrom_cons, Place.step, if_neg hne, hvalue]
        rfl
      rw [Nat.toDigits_eq_if (by decide)]
      split
      · case isTrue hlt =>
          rw [List.singleton_append, hlast 0 n hlt, Nat.mul_zero, Nat.zero_add]
      · case isFalse hge =>
          have hrest := ih (n / 16) (by omega) ((n % 16).digitChar :: rest)
          rw [List.append_assoc, List.singleton_append, hrest,
            hlast (n / 16) (n % 16) (by omega), Nat.div_add_mod]

theorem tokensFrom_literalChar (front : List Char) (c : Char) (rest : List Char) :
    tokensFrom (.literal front) (Text.literalChar c ++ rest) =
      tokensFrom (.literal (front ++ [c])) rest := by
  rw [Text.literalChar]
  split
  · case isTrue h => subst h; rfl
  split
  · case isTrue h => subst h; rfl
  split
  · case isTrue h => subst h; rfl
  split
  · case isTrue h => subst h; rfl
  split
  · case isTrue h => subst h; rfl
  split
  · case isTrue h => subst h; rfl
  split
  · case isTrue hquote hslash _ =>
      rw [List.singleton_append, tokensFrom_cons, Place.step, if_neg hquote, if_neg hslash]
      rfl
  · -- the code point is read behind three characters that announce it
    change tokensFrom (.codePoint front 0) (Nat.toDigits 16 c.toNat ++ ['\x7d'] ++ rest) = _
    rw [List.append_assoc, tokensFrom_toDigits]
    change tokensFrom (.literal (front ++ [Char.ofNat c.toNat])) rest = _
    rw [Char.ofNat_toNat]

theorem tokensFrom_flatMap_literalChar (front text : List Char) (rest : List Char) :
    tokensFrom (.literal front) (text.flatMap Text.literalChar ++ rest) =
      tokensFrom (.literal (front ++ text)) rest := by
  induction text generalizing front with
  | nil => simp
  | cons c text ih =>
      rw [List.flatMap_cons, List.append_assoc, tokensFrom_literalChar, ih, List.append_assoc,
        List.singleton_append]

/-- The literal of a text denotes that text, whatever its characters. -/
theorem tokensFrom_literal (text : String) (rest : List Char) :
    tokensFrom .code ((Text.literal text).toList ++ rest) =
      .literal text :: tokensFrom .code rest := by
  have hopen : ∀ s, tokensFrom .code ('"' :: s) = tokensFrom (.literal []) s := fun _ => rfl
  have hclose : ∀ front s, tokensFrom (.literal front) ('"' :: s) =
      .literal (String.ofList front) :: tokensFrom .code s := fun _ _ => rfl
  rw [Text.literal, String.toList_ofList, Text.literalChars, List.cons_append, List.cons_append,
    hopen, List.append_assoc, tokensFrom_flatMap_literalChar, List.nil_append,
    List.singleton_append, hclose, String.ofList_toList]

/-! ## Expressions -/

/-- Whether a character may stand in the words of an expression: in an identifier, in a
path of identifiers, or in a reference to a static. -/
def isPathChar (c : Char) : Bool :=
  CratePath.isTail c || c == ':' || c == '&' || c == '*'

theorem step_code_of_isTail {c : Char} (h : CratePath.isTail c = true) :
    Place.step .code c = (.word [c], []) := by
  have hquote : c ≠ '"' := by
    rintro rfl
    revert h
    decide
  have hblank : c.isWhitespace = false := by
    rw [Bool.eq_false_iff]
    intro hwhite
    simp only [Char.isWhitespace, Bool.or_eq_true, decide_eq_true_eq] at hwhite
    rcases hwhite with ((rfl | rfl) | rfl) | rfl <;> revert h <;> decide
  simp [Place.step, Place.enter, h, hquote, hblank]

/-- Letters, digits and underscores are one word. -/
theorem tokens_of_isTail {text : String} (hne : text ≠ "")
    (h : ∀ c ∈ text.toList, CratePath.isTail c = true) : tokens text = [.word text] := by
  rw [tokens]
  cases htext : text.toList with
  | nil => exact absurd (String.toList_eq_nil_iff.mp htext) hne
  | cons c rest =>
      rw [htext] at h
      have hword := tokensFrom_word (fun d hd => h d (List.mem_cons_of_mem _ hd)) [c] []
      rw [List.append_nil] at hword
      rw [tokensFrom_cons, step_code_of_isTail (h c List.mem_cons_self), List.nil_append, hword,
        List.singleton_append, ← htext]
      simp [tokensFrom, Place.finish]

/-- A number is written in characters of identifiers. -/
theorem isTail_of_mem_toString (n : Nat) :
    ∀ c ∈ (toString n).toList, CratePath.isTail c = true := by
  intro c hc
  rw [Nat.toString_eq_ofList_toDigits, String.toList_ofList] at hc
  have hdigit := Nat.isDigit_of_mem_toDigits (by decide) (by decide) hc
  simp [CratePath.isTail, Char.isAlphanum, hdigit]

theorem toString_ne_empty (n : Nat) : toString n ≠ "" := by
  intro hempty
  rw [Nat.toString_eq_ofList_toDigits, String.ofList_eq_empty_iff] at hempty
  exact Nat.toDigits_ne_nil hempty

/-- How a character of a path is read, in code and in a word. -/
theorem step_of_isPathChar {c : Char} (hc : isPathChar c = true) :
    (Place.step .code c = (.word [c], []) ∧
      ∀ front, Place.step (.word front) c = (.word (front ++ [c]), [])) ∨
    (Place.step .code c = (.code, [.symbol c]) ∧
      ∀ front, Place.step (.word front) c =
        (.code, [.word (String.ofList front), .symbol c])) := by
  cases htail : CratePath.isTail c with
  | true =>
      refine .inl ⟨step_code_of_isTail htail, fun front => ?_⟩
      rw [Place.step, if_pos htail]
  | false =>
      have hsymbol : c = ':' ∨ c = '&' ∨ c = '*' := by
        simpa [isPathChar, htail, or_assoc] using hc
      right
      rcases hsymbol with rfl | rfl | rfl <;> exact ⟨rfl, fun _ => rfl⟩

/-- A path is read by itself where something else follows. -/
theorem tokensFrom_path {c : Char} (hc : CratePath.isTail c = false) (path rest : List Char)
    (hpath : ∀ d ∈ path, isPathChar d = true) :
    tokensFrom .code (path ++ c :: rest) =
        tokensFrom .code path ++ tokensFrom .code (c :: rest) ∧
      ∀ front, tokensFrom (.word front) (path ++ c :: rest) =
        tokensFrom (.word front) path ++ tokensFrom .code (c :: rest) := by
  induction path with
  | nil => exact ⟨rfl, fun front => tokensFrom_word_end hc front rest⟩
  | cons d path ih =>
      obtain ⟨hcode, hword⟩ := ih fun e he => hpath e (List.mem_cons_of_mem _ he)
      rcases step_of_isPathChar (hpath d List.mem_cons_self) with ⟨hstep, hstep'⟩ | ⟨hstep, hstep'⟩
      · constructor
        · simp [tokensFrom_cons, hstep, hword]
        · intro front
          simp [tokensFrom_cons, hstep', hword]
      · constructor
        · simp [tokensFrom_cons, hstep, hcode]
        · intro front
          simp [tokensFrom_cons, hstep', hcode]

namespace Expression

mutual

/-- Every word of the expression, and the head of every call in it, has the property. -/
def AllWords (p : String → Prop) : Expression → Prop
  | word text => p text
  | literal _ => True
  | owned _ => True
  | call head _ arguments => p head ∧ AllWordsOf p arguments
  | vector _ items => AllWordsOf p items

def AllWordsOf (p : String → Prop) : List Expression → Prop
  | [] => True
  | expression :: rest => AllWords p expression ∧ AllWordsOf p rest

end

mutual

/-- The tokens of an expression, however it is laid out. -/
def tokens : Expression → List Token
  | word text => Emission.tokens text
  | literal text => [.literal text]
  | owned text =>
    [.literal text, .symbol '.', .word "to_string", .symbol '(', .symbol ')']
  | call head .inline arguments =>
    Emission.tokens head ++ .symbol '(' :: inlineTokens arguments ++ [.symbol ')']
  | call head .block arguments =>
    Emission.tokens head ++ .symbol '(' :: blockTokens arguments ++ [.symbol ')']
  | vector .inline items =>
    .word "vec" :: .symbol '!' :: .symbol '[' :: inlineTokens items ++ [.symbol ']']
  | vector .block items =>
    .word "vec" :: .symbol '!' :: .symbol '[' :: blockTokens items ++ [.symbol ']']

/-- The tokens of expressions with commas between them. -/
def inlineTokens : List Expression → List Token
  | [] => []
  | expression :: rest => tokens expression ++ tailTokens rest

/-- The tokens of expressions with a comma before each. -/
def tailTokens : List Expression → List Token
  | [] => []
  | expression :: rest => .symbol ',' :: tokens expression ++ tailTokens rest

/-- The tokens of expressions with a comma behind each. -/
def blockTokens : List Expression → List Token
  | [] => []
  | expression :: rest => tokens expression ++ .symbol ',' :: blockTokens rest

end

/-- The text is a word that can stand in an expression. -/
def IsPath (text : String) : Prop :=
  ∀ c ∈ text.toList, isPathChar c = true

mutual

theorem tokensFrom_render (depth : Nat) :
    ∀ expression : Expression, expression.AllWords IsPath →
      ∀ (c : Char) (rest : List Char), CratePath.isTail c = false →
        tokensFrom .code ((expression.render depth).toList ++ c :: rest) =
          expression.tokens ++ tokensFrom .code (c :: rest)
  | word text, h, c, rest, hc => by
      rw [AllWords] at h
      rw [render, tokens]
      exact (tokensFrom_path hc text.toList rest h).1
  | literal text, _, c, rest, _ => by
      rw [render, tokens, tokensFrom_literal]
      rfl
  | owned text, _, c, rest, _ => by
      rw [render, tokens, String.toList_append, List.append_assoc, tokensFrom_literal]
      rfl
  | call head .inline arguments, h, c, rest, hc => by
      rw [AllWords] at h
      have hhead : ∀ s, tokensFrom .code (head.toList ++ '(' :: s) =
          Emission.tokens head ++ .symbol '(' :: tokensFrom .code s := fun s =>
        (tokensFrom_path (by decide) head.toList s h.1).1
      have harguments := tokensFrom_renderInline depth arguments h.2 ')' (c :: rest) (by decide)
      rw [render, tokens]
      simp only [String.toList_append, List.append_assoc]
      change tokensFrom .code (head.toList ++ '(' ::
        ((renderInline depth arguments).toList ++ ')' :: c :: rest)) = _
      rw [hhead, harguments]
      simp only [List.cons_append]
      rfl
  | call head .block arguments, h, c, rest, hc => by
      rw [AllWords] at h
      have hhead : ∀ s, tokensFrom .code (head.toList ++ '(' :: s) =
          Emission.tokens head ++ .symbol '(' :: tokensFrom .code s := fun s =>
        (tokensFrom_path (by decide) head.toList s h.1).1
      have harguments := tokensFrom_renderBlock (depth + 1) arguments h.2
      rw [render, tokens]
      simp only [String.toList_append, List.append_assoc]
      change tokensFrom .code (head.toList ++ '(' :: '\n' ::
        ((renderBlock (depth + 1) arguments).toList ++ ((indentation depth).toList ++
          ')' :: c :: rest))) = _
      rw [hhead, tokensFrom_lineBreak, harguments, tokensFrom_indentation]
      simp only [List.cons_append]
      rfl
  | vector .inline items, h, c, rest, hc => by
      rw [AllWords] at h
      have hitems := tokensFrom_renderInline depth items h ']' (c :: rest) (by decide)
      rw [render, tokens]
      simp only [String.toList_append, List.append_assoc]
      change .word "vec" :: .symbol '!' :: .symbol '[' :: tokensFrom .code
        ((renderInline depth items).toList ++ ']' :: c :: rest) = _
      rw [hitems]
      simp only [List.cons_append]
      rfl
  | vector .block items, h, c, rest, hc => by
      rw [AllWords] at h
      have hitems := tokensFrom_renderBlock (depth + 1) items h
      rw [render, tokens]
      simp only [String.toList_append, List.append_assoc]
      change .word "vec" :: .symbol '!' :: .symbol '[' :: tokensFrom .code
        ((renderBlock (depth + 1) items).toList ++ ((indentation depth).toList ++
          ']' :: c :: rest)) = _
      rw [hitems, tokensFrom_indentation]
      simp only [List.cons_append]
      rfl

theorem tokensFrom_renderInline (depth : Nat) :
    ∀ expressions : List Expression, AllWordsOf IsPath expressions →
      ∀ (c : Char) (rest : List Char), CratePath.isTail c = false →
        tokensFrom .code ((renderInline depth expressions).toList ++ c :: rest) =
          inlineTokens expressions ++ tokensFrom .code (c :: rest)
  | [], _, _, _, _ => rfl
  | expression :: others, h, c, rest, hc => by
      rw [AllWordsOf] at h
      obtain ⟨d, s, hd, htail, htokens⟩ := tokensFrom_renderTail depth others h.2 c rest hc
      rw [renderInline, inlineTokens, String.toList_append, List.append_assoc, htail,
        tokensFrom_render depth expression h.1 d s hd, htokens, List.append_assoc]

/-- What follows an expression on its line starts with a comma or with what ends the
line. -/
theorem tokensFrom_renderTail (depth : Nat) :
    ∀ expressions : List Expression, AllWordsOf IsPath expressions →
      ∀ (c : Char) (rest : List Char), CratePath.isTail c = false →
        ∃ d s, CratePath.isTail d = false ∧
          (renderTail depth expressions).toList ++ c :: rest = d :: s ∧
          tokensFrom .code (d :: s) = tailTokens expressions ++ tokensFrom .code (c :: rest)
  | [], _, c, rest, hc => ⟨c, rest, hc, rfl, rfl⟩
  | expression :: others, h, c, rest, hc => by
      rw [AllWordsOf] at h
      obtain ⟨d, s, hd, htail, htokens⟩ := tokensFrom_renderTail depth others h.2 c rest hc
      refine ⟨',', ' ' :: ((expression.render depth).toList ++ d :: s), by decide, ?_, ?_⟩
      · rw [renderTail, String.toList_append, String.toList_append, List.append_assoc,
          List.append_assoc, htail]
        rfl
      · change .symbol ',' :: tokensFrom .code ((expression.render depth).toList ++ d :: s) = _
        rw [tokensFrom_render depth expression h.1 d s hd, htokens, tailTokens]
        simp

theorem tokensFrom_renderBlock (depth : Nat) :
    ∀ expressions : List Expression, AllWordsOf IsPath expressions →
      ∀ rest : List Char,
        tokensFrom .code ((renderBlock depth expressions).toList ++ rest) =
          blockTokens expressions ++ tokensFrom .code rest
  | [], _, _ => rfl
  | expression :: others, h, rest => by
      rw [AllWordsOf] at h
      have hexpression := tokensFrom_render depth expression h.1 ','
        ('\n' :: ((renderBlock depth others).toList ++ rest)) (by decide)
      rw [renderBlock, blockTokens]
      simp only [String.toList_append, List.append_assoc]
      rw [tokensFrom_indentation]
      change tokensFrom .code ((expression.render depth).toList ++ ',' :: '\n' ::
        ((renderBlock depth others).toList ++ rest)) = _
      rw [hexpression]
      change _ ++ .symbol ',' :: tokensFrom .code ((renderBlock depth others).toList ++ rest) = _
      rw [tokensFrom_renderBlock depth others h.2]
      simp

end

end Expression

end Emission

end RecordSchema
