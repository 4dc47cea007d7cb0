import RecordSchema.Text.CaseTable

/-!
# Lowercasing

`lowercase` maps each character of a text to its lower-case form. Two letters
are special: the capital I with a dot becomes two characters, and a capital
sigma becomes the final form at the end of a word, which is where a character
with case stands before it and none after it, looking through the characters
that have no part in case.
-/

namespace RecordSchema

namespace Text

/-- Whether the first character that is not looked through has case. -/
def startsCased (text : List Char) : Bool :=
  match text.dropWhile isCaseIgnorable with
  | [] => false
  | c :: _ => isCased c

/-- The lower-case form of a character between the reversed text before it and
the text after it. -/
def lowercaseIn (before : List Char) (c : Char) (after : List Char) : List Char :=
  if c = 'Σ' then
    [if startsCased before && !startsCased after then 'ς' else 'σ']
  else if c = 'İ' then
    ['i', '\u0307']
  else
    [lowercaseChar c]

/-- Lowercases a text that follows the reversed text `before`. -/
def lowercaseAfter (before : List Char) : List Char → List Char
  | [] => []
  | c :: rest => lowercaseIn before c rest ++ lowercaseAfter (c :: before) rest

/-- The lower-case form of a text. -/
def lowercase (text : List Char) : List Char :=
  lowercaseAfter [] text

@[simp] theorem lowercaseAfter_nil (before : List Char) : lowercaseAfter before [] = [] := rfl

theorem lowercaseAfter_cons (before : List Char) (c : Char) (rest : List Char) :
    lowercaseAfter before (c :: rest) =
      lowercaseIn before c rest ++ lowercaseAfter (c :: before) rest := rfl

end Text

end RecordSchema
