import RecordSchema.Document.Lexeme

/-!
# Documents as they are written

A `Tree` is a text cut into its parts with nothing decided yet: every name of an
object is there with its repetitions, every lexeme keeps its error if it has
one, and every place where the text leaves the grammar is a leaf. What the text
means, and which error counts, is up to the decoder that walks the tree: one that
stops early never sees a later fault.

Lists of items and members end in a `Gap`, which is how the text goes on where
another item, a comma or the closing bracket may stand. With each item and member stands the
offset at which an error without a place of its own is reported: behind the
blanks that follow, and behind the closing bracket if it comes next.
-/

namespace RecordSchema

/-- How a list of items or members ends. -/
inductive Gap where
  /-- With the closing bracket, which ends at the offset. -/
  | closed (stop : Nat)
  /-- With the end of the text. -/
  | ended (offset : Nat)
  /-- With the end of the text behind a comma. -/
  | endedAfterComma (offset : Nat)
  /-- With the closing bracket behind a comma. -/
  | closedAfterComma (offset : Nat)
  /-- With a character that is neither a comma nor the closing bracket. -/
  | junk (offset : Nat)
  deriving DecidableEq

mutual

/-- The parts of a text from where a value is expected. -/
inductive Tree where
  /-- The text ends where the value should start. -/
  | absent (offset : Nat)
  /-- A character that starts no value. -/
  | stray (offset : Nat)
  | null (start : Nat) (lexeme : Lexeme Unit)
  | boolean (start : Nat) (lexeme : Lexeme Bool)
  | number (start : Nat) (lexeme : Lexeme Number)
  | string (start : Nat) (lexeme : Lexeme String)
  | array (start : Nat) (items : Items)
  | object (start : Nat) (members : Members)

/-- The items of an array. -/
inductive Items where
  | done (gap : Gap)
  | item (start : Nat) (value : Tree) (settled : Nat) (rest : Items)

/-- The members of an object. -/
inductive Members where
  | done (gap : Gap)
  /-- Something else than a string stands where a name should. -/
  | notName (start : Nat)
  /-- A name without a colon: the text ends, or goes on differently at the offset. -/
  | nameOnly (name : Lexeme String) (settled : Nat) (next : Option Nat)
  | member (name : Lexeme String) (nameSettled : Nat) (value : Tree) (settled : Nat)
      (rest : Members)

end

/-- A text cut into its parts, with the offset of the first character behind the
value, if there is one. -/
structure Document where
  root : Tree
  trailing : Option Nat

/-- The offset at which a tree starts. -/
def Tree.start : Tree → Nat
  | absent offset => offset
  | stray offset => offset
  | null start _ => start
  | boolean start _ => start
  | number start _ => start
  | string start _ => start
  | array start _ => start
  | object start _ => start

namespace Gap

/-- The error of a reader that wants another item of an array. -/
def itemFault? : Gap → Option Fault
  | closed _ => none
  | ended offset => some (.form .endInArray offset)
  | endedAfterComma offset => some (.form .endInValue offset)
  | closedAfterComma offset => some (.form .commaBeforeEnd (offset + 1))
  | junk offset => some (.form .commaOrBracketExpected (offset + 1))

/-- The error of a reader that wants another member of an object. -/
def memberFault? : Gap → Option Fault
  | closed _ => none
  | ended offset => some (.form .endInObject offset)
  | endedAfterComma offset => some (.form .endInValue offset)
  | closedAfterComma offset => some (.form .commaBeforeEnd (offset + 1))
  | junk offset => some (.form .commaOrBraceExpected (offset + 1))

/-- The error of a reader that passes over an array. -/
def skippedItemFault? : Gap → Option Fault
  | closed _ => none
  | ended offset => some (.form .endInArray offset)
  | endedAfterComma offset => some (.form .endInValue offset)
  | closedAfterComma offset => some (.form .valueExpected (offset + 1))
  | junk offset => some (.form .commaOrBracketExpected (offset + 1))

/-- The error of a reader that passes over an object. -/
def skippedMemberFault? : Gap → Option Fault
  | closed _ => none
  | ended offset => some (.form .endInObject offset)
  | endedAfterComma offset => some (.form .endInObject offset)
  | closedAfterComma offset => some (.form .keyNotString (offset + 1))
  | junk offset => some (.form .commaOrBraceExpected (offset + 1))

/-- The offset at which an error without a place is reported that arises when the
list is seen to have no further item. -/
def settled : Gap → Nat
  | closed stop => stop
  | ended offset => offset
  | endedAfterComma offset => offset
  | closedAfterComma offset => offset
  | junk offset => offset

end Gap

/-- The error of a reader that has all the items it wants and finds no end. -/
def Items.excess? : Items → Option Fault
  | .done (.closed _) => none
  | .done (.ended offset) => some (.form .endInArray offset)
  | .done (.endedAfterComma offset) => some (.form .trailingCharacters offset)
  | .done (.closedAfterComma offset) => some (.form .commaBeforeEnd (offset + 1))
  | .done (.junk offset) => some (.form .trailingCharacters (offset + 1))
  | .item start _ _ _ => some (.form .trailingCharacters (start + 1))

/-- The error of a name without a colon. -/
def colonFault : Option Nat → Nat → Fault
  | none, settled => .form .endInObject settled
  | some offset, _ => .form .colonExpected (offset + 1)

end RecordSchema
