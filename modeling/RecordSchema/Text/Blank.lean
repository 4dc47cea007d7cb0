
/-!
# Blanks and trimming

`isBlank` holds of the characters that are white space anywhere in the world's
scripts: the controls U+0009 to U+000D, the next-line control, and the
separators of words, lines and paragraphs. `trim` takes them off both ends of a
text and leaves those inside.

This set of characters and others that fall into long runs are given by the
increasing list of the code points where membership changes: the first run starts
at the first boundary and ends below the second, and so on.
-/

namespace RecordSchema

namespace Text

/-- Whether an odd number of the increasing boundaries lie at or below `code`. -/
def between : List Nat → Nat → Bool
  | [], _ => false
  | boundary :: rest, code =>
    if code < boundary then false else !between rest code

@[simp] theorem between_nil (code : Nat) : between [] code = false := rfl

theorem between_cons (boundary : Nat) (rest : List Nat) (code : Nat) :
    between (boundary :: rest) code =
      if code < boundary then false else !between rest code := rfl

/-- Where blanks and other characters meet. -/
def blankBoundaries : List Nat :=
  [0x09, 0x0e, 0x20, 0x21, 0x85, 0x86, 0xa0, 0xa1, 0x1680, 0x1681, 0x2000, 0x200b,
    0x2028, 0x202a, 0x202f, 0x2030, 0x205f, 0x2060, 0x3000, 0x3001]

/-- Whether the character is white space. -/
def isBlank (c : Char) : Bool :=
  between blankBoundaries c.toNat

/-- The text without the blanks at its start. -/
def trimStart (text : List Char) : List Char :=
  text.dropWhile isBlank

/-- The text without the blanks at its end. -/
def trimEnd (text : List Char) : List Char :=
  (text.reverse.dropWhile isBlank).reverse

/-- The text without the blanks at its start and end. -/
def trim (text : List Char) : List Char :=
  trimEnd (trimStart text)

end Text

end RecordSchema
