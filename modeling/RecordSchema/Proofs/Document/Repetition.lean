import RecordSchema.Proofs.Document.Spells
import RecordSchema.Schema.Fields

/-!
# Names that are repeated

A text can repeat a name of an object; a value in memory cannot. `Tree.KeysDistinct` says
that no object of a tree repeats a name. A schema's document does not need as much: an
unknown field of a property and everything below it are passed over. `Tree.DeclaresOnce`
says that no name which declares something is repeated, which are the names of types and
properties, the known fields of a property, and the name of a transform. What a name
declares depends on its `Place`.

Main statement: distinct names declare everything once, `Tree.KeysDistinct.declaresOnce`.
-/

namespace RecordSchema

/-- The names of an object, with their repetitions. Misspelt names are left out. -/
def Members.names : Members → List String
  | .done _ => []
  | .notName _ => []
  | .nameOnly name _ _ => name.value.toOption.toList
  | .member name _ _ _ rest => name.value.toOption.toList ++ rest.names

theorem Members.Spells.names_eq {depth : Nat} {members : Members} {entries : Entries Json}
    (h : members.Spells depth entries) : members.names = entries.names := by
  induction h with
  | done stop => rfl
  | member hname _ _ ih => rw [Members.names, hname, ih]; rfl

mutual

/-- No object of the tree repeats a name. -/
def Tree.KeysDistinct : Tree → Prop
  | .array _ items => items.KeysDistinct
  | .object _ members => members.names.Nodup ∧ members.KeysDistinct
  | _ => True

def Items.KeysDistinct : Items → Prop
  | .done _ => True
  | .item _ value _ rest => value.KeysDistinct ∧ rest.KeysDistinct

def Members.KeysDistinct : Members → Prop
  | .member _ _ value _ rest => value.KeysDistinct ∧ rest.KeysDistinct
  | _ => True

end

mutual

instance Tree.decidableKeysDistinct : ∀ tree : Tree, Decidable tree.KeysDistinct
  | .array _ items => items.decidableKeysDistinct
  | .object _ members =>
    have := members.decidableKeysDistinct
    inferInstanceAs (Decidable (members.names.Nodup ∧ members.KeysDistinct))
  | .absent _ => .isTrue trivial
  | .stray _ => .isTrue trivial
  | .null _ _ => .isTrue trivial
  | .boolean _ _ => .isTrue trivial
  | .number _ _ => .isTrue trivial
  | .string _ _ => .isTrue trivial

instance Items.decidableKeysDistinct : ∀ items : Items, Decidable items.KeysDistinct
  | .done _ => .isTrue trivial
  | .item _ value _ rest =>
    have := value.decidableKeysDistinct
    have := rest.decidableKeysDistinct
    inferInstanceAs (Decidable (value.KeysDistinct ∧ rest.KeysDistinct))

instance Members.decidableKeysDistinct : ∀ members : Members, Decidable members.KeysDistinct
  | .member _ _ value _ rest =>
    have := value.decidableKeysDistinct
    have := rest.decidableKeysDistinct
    inferInstanceAs (Decidable (value.KeysDistinct ∧ rest.KeysDistinct))
  | .done _ => .isTrue trivial
  | .notName _ => .isTrue trivial
  | .nameOnly _ _ _ => .isTrue trivial

end

/-! ## Places -/

/-- What a place in a schema's document asks for. -/
inductive Place where
  | types
  | properties
  | spec
  | transforms
  | transform
  /-- Something that has no names, or names that are passed over. -/
  | plain

/-- What the value of a field is asked to be. -/
def SpecField.place : SpecField → Place
  | .properties => .properties
  | .items => .spec
  | .transform => .transforms
  | _ => .plain

namespace Place

/-- Whether a name in an object of this place declares something. -/
def declares : Place → String → Bool
  | .types, _ => true
  | .properties, _ => true
  | .spec, name => (SpecField.ofName? name).isSome
  | .transforms, _ => false
  | .transform, _ => true
  | .plain, _ => false

/-- The place of the value under a name. -/
def under : Place → String → Place
  | .types, _ => .properties
  | .properties, _ => .spec
  | .spec, name => ((SpecField.ofName? name).map SpecField.place).getD .plain
  | .transforms, _ => .plain
  | .transform, _ => .plain
  | .plain, _ => .plain

/-- The place of the item at a position of an array. -/
def item : Place → Nat → Place
  | .spec, position => (SpecField.all[position]?.map SpecField.place).getD .plain
  | .transforms, _ => .transform
  | _, _ => .plain

theorem filter_declares_of_all {place : Place} (h : ∀ name, place.declares name = true)
    (names : List String) : names.filter place.declares = names :=
  List.filter_eq_self.mpr fun name _ => h name

end Place

mutual

/-- No name of the tree that declares something is repeated. -/
def Tree.DeclaresOnce : Tree → Place → Prop
  | .array _ items, place => items.DeclaresOnce place 0
  | .object _ members, place =>
    (members.names.filter place.declares).Nodup ∧ members.DeclaresOnce place
  | _, _ => True

def Items.DeclaresOnce : Items → Place → Nat → Prop
  | .done _, _, _ => True
  | .item _ value _ rest, place, position =>
    value.DeclaresOnce (place.item position) ∧ rest.DeclaresOnce place (position + 1)

def Members.DeclaresOnce : Members → Place → Prop
  | .member name _ value _ rest, place =>
    (match name.value with
      | .ok key => value.DeclaresOnce (place.under key)
      | .error _ => True) ∧ rest.DeclaresOnce place
  | _, _ => True

end

mutual

instance Tree.decidableDeclaresOnce :
    ∀ (tree : Tree) (place : Place), Decidable (tree.DeclaresOnce place)
  | .array _ items, place => items.decidableDeclaresOnce place 0
  | .object _ members, place =>
    have := members.decidableDeclaresOnce place
    inferInstanceAs (Decidable ((members.names.filter place.declares).Nodup ∧
      members.DeclaresOnce place))
  | .absent _, _ => .isTrue trivial
  | .stray _, _ => .isTrue trivial
  | .null _ _, _ => .isTrue trivial
  | .boolean _ _, _ => .isTrue trivial
  | .number _ _, _ => .isTrue trivial
  | .string _ _, _ => .isTrue trivial

instance Items.decidableDeclaresOnce :
    ∀ (items : Items) (place : Place) (position : Nat),
      Decidable (items.DeclaresOnce place position)
  | .done _, _, _ => .isTrue trivial
  | .item _ value _ rest, place, position =>
    have := value.decidableDeclaresOnce (place.item position)
    have := rest.decidableDeclaresOnce place (position + 1)
    inferInstanceAs (Decidable (value.DeclaresOnce (place.item position) ∧
      rest.DeclaresOnce place (position + 1)))

instance Members.decidableDeclaresOnce :
    ∀ (members : Members) (place : Place), Decidable (members.DeclaresOnce place)
  | .member name _ value _ rest, place =>
    have : Decidable (match name.value with
        | .ok key => value.DeclaresOnce (place.under key)
        | .error _ => True) :=
      match name.value with
      | .ok key => value.decidableDeclaresOnce (place.under key)
      | .error _ => .isTrue trivial
    have := rest.decidableDeclaresOnce place
    instDecidableAnd
  | .done _, _ => .isTrue trivial
  | .notName _, _ => .isTrue trivial
  | .nameOnly _ _ _, _ => .isTrue trivial

end

theorem Members.declaresOnce_member_iff {name : Lexeme String} {key : String}
    (h : name.value = .ok key) {nameSettled settled : Nat} {value : Tree} {rest : Members}
    {place : Place} :
    (member name nameSettled value settled rest).DeclaresOnce place ↔
      value.DeclaresOnce (place.under key) ∧ rest.DeclaresOnce place := by
  rw [Members.DeclaresOnce, h]

mutual

/-- A tree that repeats no name declares everything once, wherever it stands. -/
theorem Tree.KeysDistinct.declaresOnce :
    ∀ {tree : Tree} (place : Place), tree.KeysDistinct → tree.DeclaresOnce place
  | .array _ items, place, h =>
    have hitems : items.KeysDistinct := h
    hitems.declaresOnce place 0
  | .object _ _, place, h => ⟨h.1.filter _, h.2.declaresOnce place⟩
  | .absent _, _, _ => trivial
  | .stray _, _, _ => trivial
  | .null _ _, _, _ => trivial
  | .boolean _ _, _, _ => trivial
  | .number _ _, _, _ => trivial
  | .string _ _, _, _ => trivial

theorem Items.KeysDistinct.declaresOnce :
    ∀ {items : Items} (place : Place) (position : Nat),
      items.KeysDistinct → items.DeclaresOnce place position
  | .done _, _, _, _ => trivial
  | .item _ _ _ _, _, _, h => ⟨h.1.declaresOnce _, h.2.declaresOnce _ _⟩

theorem Members.KeysDistinct.declaresOnce :
    ∀ {members : Members} (place : Place), members.KeysDistinct → members.DeclaresOnce place
  | .member _ _ _ _ _, _, h => by
    refine ⟨?_, h.2.declaresOnce _⟩
    split
    · exact h.1.declaresOnce _
    · trivial
  | .done _, _, _ => trivial
  | .notName _, _, _ => trivial
  | .nameOnly _ _ _, _, _ => trivial

end

mutual

/-- Nothing is declared in a value that is passed over. -/
theorem Tree.declaresOnce_plain : ∀ tree : Tree, tree.DeclaresOnce .plain
  | .array _ items => items.declaresOnce_plain 0
  | .object _ members => by
    have hnone : members.names.filter Place.plain.declares = [] :=
      List.filter_eq_nil_iff.mpr fun _ _ => Bool.false_ne_true
    rw [Tree.DeclaresOnce, hnone]
    exact ⟨List.nodup_nil, members.declaresOnce_plain⟩
  | .absent _ => trivial
  | .stray _ => trivial
  | .null _ _ => trivial
  | .boolean _ _ => trivial
  | .number _ _ => trivial
  | .string _ _ => trivial

theorem Items.declaresOnce_plain : ∀ (items : Items) (position : Nat),
    items.DeclaresOnce .plain position
  | .done _, _ => trivial
  | .item _ value _ rest, _ => ⟨value.declaresOnce_plain, rest.declaresOnce_plain _⟩

theorem Members.declaresOnce_plain : ∀ members : Members, members.DeclaresOnce .plain
  | .member _ _ value _ rest => by
    refine ⟨?_, rest.declaresOnce_plain⟩
    split
    · exact value.declaresOnce_plain
    · trivial
  | .done _ => trivial
  | .notName _ => trivial
  | .nameOnly _ _ _ => trivial

end

end RecordSchema
