import Mathlib.Tactic.SplitIfs
import RecordSchema.Proofs.Document.Spells

/-!
# Values can be passed over

Passing over a part of a text is more lenient than reading it, but the two readings of a
lexeme are kept side by side in the tree and nothing in the type of trees relates them.
The scanners do: what they give a value can be passed over. So a tree that was read from a
text and spells a value can be passed over, at any depth.

Main statements: `Document.ofText_passable` and `Tree.passOver_of_json`.
-/

namespace RecordSchema

/-! ## Lexemes -/

/-- If the lexeme has a value, it can be passed over. -/
def Lexeme.Passable {α : Type} (lexeme : Lexeme α) : Prop :=
  ∀ x, lexeme.value = .ok x → lexeme.shape = .ok ()

theorem Lexeme.passable_of_shape {α : Type} {lexeme : Lexeme α} (h : lexeme.shape = .ok ()) :
    lexeme.Passable :=
  fun _ _ => h

theorem Lexeme.passable_bad {α : Type} (value shape : Fault) :
    (Lexeme.bad value shape : Lexeme α).Passable :=
  fun _ h => nomatch h

theorem scanWord_passable {α : Type} (value : α) (word s : List Char) (offset : Nat) :
    (scanWord value word s offset).1.Passable := by
  induction word generalizing s offset with
  | nil => exact Lexeme.passable_of_shape rfl
  | cons letter letters ih =>
      cases s with
      | nil => exact Lexeme.passable_bad _ _
      | cons c rest =>
          rw [scanWord]
          split
          · exact ih rest (offset + 1)
          · exact Lexeme.passable_bad _ _

theorem scanNumber_passable (s : List Char) (offset : Nat) :
    (scanNumber s offset).1.Passable := by
  rw [scanNumber]
  split
  · exact Lexeme.passable_bad _ _
  · exact Lexeme.passable_of_shape rfl

theorem scanString_passable (s : List Char) (offset : Nat) (front : List Char)
    (fault : Option Fault) : (scanString s offset front fault).1.Passable := by
  fun_induction scanString s offset front fault with
  | case1 => exact Lexeme.passable_bad _ _
  | case2 => exact Lexeme.passable_of_shape rfl
  | case3 _ _ _ _ _ _ _ _ ih => exact ih
  | case4 _ _ _ _ _ _ _ _ ih => exact ih
  | case5 => exact Lexeme.passable_bad _ _
  | case6 => exact Lexeme.passable_bad _ _
  | case7 _ _ _ _ _ _ _ _ ih => exact ih

/-! ## Trees -/

@[simp] theorem Reading.value_map {α β : Type} {m n : Nat} (f : α → β) (reading : Reading m α)
    (le : m ≤ n) : (reading.map f le).value = f reading.value := rfl

mutual

/-- Every lexeme of the tree that has a value can be passed over. -/
def Tree.Passable : Tree → Prop
  | .absent _ => True
  | .stray _ => True
  | .null _ lexeme => lexeme.Passable
  | .boolean _ lexeme => lexeme.Passable
  | .number _ lexeme => lexeme.Passable
  | .string _ lexeme => lexeme.Passable
  | .array _ items => items.Passable
  | .object _ members => members.Passable

def Items.Passable : Items → Prop
  | .done _ => True
  | .item _ value _ rest => value.Passable ∧ rest.Passable

def Members.Passable : Members → Prop
  | .done _ => True
  | .notName _ => True
  | .nameOnly name _ _ => name.Passable
  | .member name _ value _ rest => name.Passable ∧ value.Passable ∧ rest.Passable

end

mutual

theorem readValue_passable (s : List Char) (offset : Nat) :
    (readValue s offset).value.Passable := by
  unfold readValue
  split
  · trivial
  · split_ifs
    · exact readItems_passable _ _
    · exact readMembers_passable _ _
    · exact scanString_passable _ _ _ _
    · exact scanNumber_passable _ _
    · exact scanWord_passable _ _ _ _
    · exact scanWord_passable _ _ _ _
    · exact scanWord_passable _ _ _ _
    · trivial
termination_by 3 * s.length
decreasing_by all_goals grind

theorem readItems_passable (s : List Char) (offset : Nat) :
    (readItems s offset).value.Passable := by
  unfold readItems
  dsimp only
  split
  · trivial
  · next h =>
    have fits := Reading.length_lt h
    split_ifs
    · trivial
    · rw [Reading.value_map]
      exact readItem_passable _ _
termination_by 3 * s.length + 2
decreasing_by grind

theorem readItem_passable (s : List Char) (offset : Nat) :
    (readItem s offset).value.Passable := by
  have hvalue := readValue_passable s offset
  unfold readItem
  dsimp only
  split
  · exact ⟨hvalue, trivial⟩
  · next h =>
    have fits := Reading.length_lt h
    split_ifs
    · exact ⟨hvalue, trivial⟩
    · split
      · exact ⟨hvalue, trivial⟩
      · next h' =>
        have fits' := Reading.length_lt h'
        split_ifs
        · exact ⟨hvalue, trivial⟩
        · exact ⟨hvalue, readItem_passable _ _⟩
    · exact ⟨hvalue, trivial⟩
termination_by 3 * s.length + 1
decreasing_by all_goals grind

theorem readMembers_passable (s : List Char) (offset : Nat) :
    (readMembers s offset).value.Passable := by
  unfold readMembers
  dsimp only
  split
  · trivial
  · next h =>
    have fits := Reading.length_lt h
    split_ifs
    · trivial
    · rw [Reading.value_map]
      exact readMember_passable _ _
termination_by 3 * s.length + 2
decreasing_by grind

theorem readMember_passable (s : List Char) (offset : Nat) :
    (readMember s offset).value.Passable := by
  unfold readMember
  split
  · trivial
  · next text =>
    have hname := scanString_passable text (offset + 1) [] none
    split_ifs
    · dsimp only
      split
      · exact hname
      · next rest h =>
        have fits := Reading.length_lt h
        split
        · -- where the value starts does not matter, only that it is read from less text
          generalize skipFrom rest _ = gap
          obtain ⟨_, body, start, starts⟩ := gap
          have hvalue := readValue_passable body start
          split
          · exact ⟨hname, hvalue, trivial⟩
          · next h' =>
            have fits' := Reading.length_lt h'
            split_ifs
            · exact ⟨hname, hvalue, trivial⟩
            · split
              · exact ⟨hname, hvalue, trivial⟩
              · next h'' =>
                have fits'' := Reading.length_lt h''
                split_ifs
                · exact ⟨hname, hvalue, trivial⟩
                · exact ⟨hname, hvalue, readMember_passable _ _⟩
            · exact ⟨hname, hvalue, trivial⟩
        · exact hname
    · trivial
termination_by 3 * s.length + 1
decreasing_by all_goals grind

end

/-- The tree of a text can be passed over wherever it has a value. -/
theorem Document.ofText_passable (text : String) : (Document.ofText text).root.Passable :=
  readValue_passable _ _

/-! ## Passing over -/

section

/- The parts of an array or an object are nested one level less deep than itself, so the
statement about trees goes by the depth, and these lists may rely on it for their parts. -/
variable {depth : Nat}
  (hpart : ∀ tree value, Tree.Passable tree → tree.json depth = .ok value →
    tree.passOver = .ok ())

include hpart

theorem Items.Spells.passOver {items : Items} {xs : List Json} (h : items.Spells depth xs)
    (hpassable : items.Passable) : Tree.passOverItems items = .ok () := by
  induction h with
  | done stop => rfl
  | item hvalue _ ih =>
      rw [Tree.passOverItems, hpart _ _ hpassable.1 hvalue]
      exact ih hpassable.2

theorem Members.Spells.passOver {members : Members} {entries : Entries Json}
    (h : members.Spells depth entries) (hpassable : members.Passable) :
    Tree.passOverMembers members = .ok () := by
  induction h with
  | done stop => rfl
  | member hname hvalue _ ih =>
      rw [Tree.passOverMembers, hpassable.1 _ hname, hpart _ _ hpassable.2.1 hvalue]
      exact ih hpassable.2.2

end

/-- A tree that spells a value can be passed over. -/
theorem Tree.passOver_of_json {depth : Nat} {tree : Tree} {value : Json}
    (hpassable : tree.Passable) (h : tree.json depth = .ok value) : tree.passOver = .ok () := by
  induction depth generalizing tree value with
  | zero =>
      cases spells_of_json h with
      | null hvalue => exact hpassable _ hvalue
      | boolean hvalue => exact hpassable _ hvalue
      | number hvalue => exact hpassable _ hvalue
      | string hvalue => exact hpassable _ hvalue
  | succ depth ih =>
      cases spells_of_json h with
      | null hvalue => exact hpassable _ hvalue
      | boolean hvalue => exact hpassable _ hvalue
      | number hvalue => exact hpassable _ hvalue
      | string hvalue => exact hpassable _ hvalue
      | array _ hitems => exact hitems.passOver (fun _ _ => ih) hpassable
      | object _ hmembers => exact hmembers.passOver (fun _ _ => ih) hpassable

end RecordSchema
