import RecordSchema.Text.Visible

/-!
# Quoted literals

`literal` writes a text between quotes so that one line of visible characters
holds it: the quote, the backslash and the controls with a letter of their own
get a backslash, and every other invisible character is written by its code
point. The form is that of a Rust string literal, and messages that quote a
text use it too.
-/

namespace RecordSchema

namespace Text

/-- A character inside a literal. -/
def literalChar (c : Char) : List Char :=
  if c = '\x00' then ['\\', '0']
  else if c = '\t' then ['\\', 't']
  else if c = '\n' then ['\\', 'n']
  else if c = '\r' then ['\\', 'r']
  else if c = '"' then ['\\', '"']
  else if c = '\\' then ['\\', '\\']
  else if isVisible c then [c]
  else ['\\', 'u', '\x7b'] ++ Nat.toDigits 16 c.toNat ++ ['\x7d']

/-- The characters of a text's literal, quotes included. -/
def literalChars (text : List Char) : List Char :=
  '"' :: text.flatMap literalChar ++ ['"']

/-- The literal of a text. -/
def literal (text : String) : String :=
  String.ofList (literalChars text.toList)

end Text

end RecordSchema
