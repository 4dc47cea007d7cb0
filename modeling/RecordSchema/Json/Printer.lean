import RecordSchema.Json.Basic

/-!
# Writing document values

`Json.compact` writes a value on one line without blanks, and `Json.pretty`
writes one member or element a line, indented by two blanks for each level.
Both escape the same characters of a string: the quote, the backslash and the
characters below U+0020.
-/

namespace RecordSchema

namespace Json

/-- A character inside a quoted string. -/
def escaped (c : Char) : String :=
  if c = '"' then "\\\""
  else if c = '\\' then "\\\\"
  else if c = '\x08' then "\\b"
  else if c = '\x0c' then "\\f"
  else if c = '\n' then "\\n"
  else if c = '\r' then "\\r"
  else if c = '\t' then "\\t"
  else if c.toNat < 0x20 then
    "\\u00" ++ String.ofList [Nat.digitChar (c.toNat / 16), Nat.digitChar (c.toNat % 16)]
  else
    c.toString

/-- A string with its quotes. -/
def quoted (s : String) : String :=
  "\"" ++ String.join (s.toList.map escaped) ++ "\""

mutual

/-- The value on one line, without blanks. -/
def compact : Json → String
  | .null => "null"
  | .boolean true => "true"
  | .boolean false => "false"
  | .number n => n.text
  | .string s => quoted s
  | .array [] => "[]"
  | .array (x :: xs) => "[" ++ compact x ++ compactElements xs ++ "]"
  | .object [] => "\x7b\x7d"
  | .object ((name, x) :: xs) =>
    "\x7b" ++ quoted name ++ ":" ++ compact x ++ compactMembers xs ++ "\x7d"

/-- The elements after the first, each with the comma before it. -/
def compactElements : List Json → String
  | [] => ""
  | x :: xs => "," ++ compact x ++ compactElements xs

/-- The members after the first, each with the comma before it. -/
def compactMembers : List (String × Json) → String
  | [] => ""
  | (name, x) :: xs => "," ++ quoted name ++ ":" ++ compact x ++ compactMembers xs

end

/-- A line break and the indentation of a level. -/
def newLine (level : Nat) : String :=
  "\n" ++ String.ofList (List.replicate (2 * level) ' ')

mutual

/-- The value over several lines, its own first line not indented. -/
def prettyAt (level : Nat) : Json → String
  | .null => "null"
  | .boolean true => "true"
  | .boolean false => "false"
  | .number n => n.text
  | .string s => quoted s
  | .array [] => "[]"
  | .array (x :: xs) =>
    "[" ++ newLine (level + 1) ++ prettyAt (level + 1) x ++
      prettyElements (level + 1) xs ++ newLine level ++ "]"
  | .object [] => "\x7b\x7d"
  | .object ((name, x) :: xs) =>
    "\x7b" ++ newLine (level + 1) ++ quoted name ++ ": " ++ prettyAt (level + 1) x ++
      prettyMembers (level + 1) xs ++ newLine level ++ "\x7d"

/-- The elements after the first, each on a line of its own. -/
def prettyElements (level : Nat) : List Json → String
  | [] => ""
  | x :: xs => "," ++ newLine level ++ prettyAt level x ++ prettyElements level xs

/-- The members after the first, each on a line of its own. -/
def prettyMembers (level : Nat) : List (String × Json) → String
  | [] => ""
  | (name, x) :: xs =>
    "," ++ newLine level ++ quoted name ++ ": " ++ prettyAt level x ++ prettyMembers level xs

end

/-- The value over several lines. -/
def pretty (value : Json) : String :=
  prettyAt 0 value

end Json

end RecordSchema
