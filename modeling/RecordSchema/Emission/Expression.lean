import RecordSchema.Text.Literal

/-!
# Expressions of emitted code

The initialisers in emitted code are built from a few forms: words, string
literals, calls and vectors. A call or a vector stands on one line, or opens,
gives each argument a line of its own, indented and with a comma, and closes.
-/

namespace RecordSchema

namespace Emission

/-- How the arguments of a call or vector are laid out. -/
inductive Layout where
  /-- On one line, with commas between them. -/
  | inline
  /-- Each on a line of its own, with a comma behind it. -/
  | block
  deriving DecidableEq

/-- An expression of emitted code. -/
inductive Expression where
  /-- A path, a number, a truth value, or a reference to a static. -/
  | word (text : String)
  /-- A string literal. -/
  | literal (text : String)
  /-- A string literal made into an owned string. -/
  | owned (text : String)
  | call (head : String) (layout : Layout) (arguments : List Expression)
  | vector (layout : Layout) (items : List Expression)

/-- The blanks in front of a line at a depth. -/
def indentation (depth : Nat) : String :=
  String.ofList (List.replicate (4 * depth) ' ')

namespace Expression

mutual

/-- The text of an expression whose first line is at a depth. -/
def render (depth : Nat) : Expression → String
  | word text => text
  | literal text => Text.literal text
  | owned text => Text.literal text ++ ".to_string()"
  | call head .inline arguments => head ++ "(" ++ renderInline depth arguments ++ ")"
  | call head .block arguments =>
    head ++ "(\n" ++ renderBlock (depth + 1) arguments ++ indentation depth ++ ")"
  | vector .inline items => "vec![" ++ renderInline depth items ++ "]"
  | vector .block items =>
    "vec![\n" ++ renderBlock (depth + 1) items ++ indentation depth ++ "]"

/-- Expressions on one line, with commas between them. -/
def renderInline (depth : Nat) : List Expression → String
  | [] => ""
  | expression :: rest => render depth expression ++ renderTail depth rest

/-- Expressions on one line, each with a comma before it. -/
def renderTail (depth : Nat) : List Expression → String
  | [] => ""
  | expression :: rest => ", " ++ render depth expression ++ renderTail depth rest

/-- Expressions on lines of their own, each with a comma behind it. -/
def renderBlock (depth : Nat) : List Expression → String
  | [] => ""
  | expression :: rest =>
    indentation depth ++ render depth expression ++ ",\n" ++ renderBlock depth rest

end

end Expression

end Emission

end RecordSchema
