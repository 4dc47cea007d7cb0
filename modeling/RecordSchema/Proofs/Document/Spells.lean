import Mathlib.Data.List.Nodup
import RecordSchema.Document.Record
import RecordSchema.Proofs.Result

/-!
# What a tree spells

`Tree.Spells depth tree value` is `tree.json depth = .ok value` laid out by the kinds of
values: no lexeme is at fault, every list is closed, and there is depth for the brackets.
An array spells its items one by one. An object spells its members in the same way, with
all their repetitions, and its value is what `Entries.putAll` makes of them.

Main statement: a tree whose value is read spells that value, `Tree.spells_of_json`.
-/

namespace RecordSchema

/-! ## Putting several values -/

namespace Entries

universe u

variable {α : Type u}

/-- The entries with further ones put one after the other. -/
def putAll (front entries : Entries α) : Entries α :=
  entries.foldl (fun front entry => front.put entry.1 entry.2) front

@[simp] theorem putAll_nil (front : Entries α) : front.putAll [] = front := rfl

@[simp] theorem putAll_cons (front : Entries α) (entry : String × α) (rest : Entries α) :
    front.putAll (entry :: rest) = (front.put entry.1 entry.2).putAll rest := rfl

/-- A new name is put at the end. -/
theorem put_of_not_mem {front : Entries α} {name : String} (h : name ∉ front.names) (value : α) :
    front.put name value = front ++ [(name, value)] := by
  induction front with
  | nil => rfl
  | cons entry rest ih =>
      obtain ⟨key, old⟩ := entry
      rw [names_cons, List.mem_cons, not_or] at h
      rw [put, if_neg (Ne.symm h.1), ih h.2, List.cons_append]

/-- Entries without repeated names are kept as they are. -/
theorem putAll_of_nodup {front entries : Entries α} (h : (front ++ entries).names.Nodup) :
    front.putAll entries = front ++ entries := by
  induction entries generalizing front with
  | nil => rw [putAll_nil, List.append_nil]
  | cons entry rest ih =>
      obtain ⟨name, value⟩ := entry
      have hfresh : name ∉ front.names := by
        rw [names, List.map_append, List.nodup_append] at h
        exact fun hmem => h.2.2 name hmem name (List.mem_cons_self) rfl
      have hsplit : front ++ [(name, value)] ++ rest = front ++ (name, value) :: rest := by simp
      rw [putAll_cons, put_of_not_mem hfresh, ih (by rwa [hsplit]), hsplit]

/-- Of several values under one name the last is kept. -/
theorem get?_putAll (front entries : Entries α) (name : String) :
    (front.putAll entries).get? name =
      (get? entries.reverse name).or (front.get? name) := by
  induction entries generalizing front with
  | nil => rfl
  | cons entry rest ih =>
      obtain ⟨key, value⟩ := entry
      rw [putAll_cons, ih, List.reverse_cons, get?_append, Option.or_assoc, get?_cons]
      by_cases hkey : key = name
      · rw [if_pos hkey, ← hkey, get?_put_self, Option.some_or]
      · rw [if_neg hkey, get?_put_of_ne hkey, get?_nil, Option.none_or]

theorem filter_put (p : String → Bool) (front : Entries α) (name : String) (value : α) :
    (front.put name value).filter (fun entry => p entry.1) =
      if p name then Entries.put (front.filter fun entry => p entry.1) name value
      else front.filter fun entry => p entry.1 := by
  induction front with
  | nil => cases h : p name <;> simp [h]
  | cons entry rest ih =>
      obtain ⟨key, old⟩ := entry
      by_cases hkey : key = name
      · subst hkey
        cases h : p key <;> simp [put, h]
      · cases hp : p key <;> cases hname : p name <;> simp [put, hkey, hp, hname, ih]

/-- Names that are left out can be left out before the values are put. -/
theorem filter_putAll (p : String → Bool) (front entries : Entries α) :
    (front.putAll entries).filter (fun entry => p entry.1) =
      putAll (front.filter fun entry => p entry.1) (entries.filter fun entry => p entry.1) := by
  induction entries generalizing front with
  | nil => rfl
  | cons entry rest ih =>
      rw [putAll_cons, ih, filter_put]
      cases h : p entry.1 <;> simp [h]

/-- Names that are left out may be repeated. -/
theorem filter_putAll_of_nodup {p : String → Bool} {entries : Entries α}
    (h : (entries.names.filter p).Nodup) :
    (putAll [] entries).filter (fun entry => p entry.1) =
      entries.filter fun entry => p entry.1 := by
  rw [filter_putAll, List.filter_nil]
  apply putAll_of_nodup
  rwa [names, List.filter_map] at h

end Entries

/-! ## Spelling -/

/-- The items of an array are the spelling of values, item by item. -/
inductive Items.Spells (depth : Nat) : Items → List Json → Prop
  | done (stop : Nat) : Spells depth (.done (.closed stop)) []
  | item {start settled : Nat} {value : Tree} {x : Json} {rest : Items} {xs : List Json} :
      value.json depth = .ok x → Spells depth rest xs →
        Spells depth (.item start value settled rest) (x :: xs)

/-- The members of an object are the spelling of named values, member by member. -/
inductive Members.Spells (depth : Nat) : Members → Entries Json → Prop
  | done (stop : Nat) : Spells depth (.done (.closed stop)) []
  | member {name : Lexeme String} {nameSettled settled : Nat} {value : Tree} {rest : Members}
      {key : String} {x : Json} {entries : Entries Json} :
      name.value = .ok key → value.json depth = .ok x → Spells depth rest entries →
        Spells depth (.member name nameSettled value settled rest) ((key, x) :: entries)

/-- The tree is the spelling of a value, with brackets nested below `depth`. -/
inductive Tree.Spells : Nat → Tree → Json → Prop
  | null {depth start : Nat} {lexeme : Lexeme Unit} :
      lexeme.value = .ok () → Spells depth (.null start lexeme) .null
  | boolean {depth start : Nat} {lexeme : Lexeme Bool} {b : Bool} :
      lexeme.value = .ok b → Spells depth (.boolean start lexeme) (.boolean b)
  | number {depth start : Nat} {lexeme : Lexeme Number} {n : Number} :
      lexeme.value = .ok n → Spells depth (.number start lexeme) (.number n)
  | string {depth start : Nat} {lexeme : Lexeme String} {s : String} :
      lexeme.value = .ok s → Spells depth (.string start lexeme) (.string s)
  | array {depth start : Nat} {items : Items} {xs : List Json} :
      0 < depth → items.Spells depth xs → Spells (depth + 1) (.array start items) (.array xs)
  | object {depth start : Nat} {members : Members} {entries : Entries Json} :
      0 < depth → members.Spells depth entries →
        Spells (depth + 1) (.object start members) (.object (Entries.putAll [] entries))

theorem Items.spells_of_json {depth : Nat} :
    ∀ {items : Items} {xs : List Json}, Tree.jsonItems depth items = .ok xs → items.Spells depth xs
  | .done gap, xs, h => by
      cases gap <;> rw [Tree.jsonItems] at h <;> cases h
      exact .done _
  | .item _ value _ rest, xs, h => by
      rw [Tree.jsonItems] at h
      obtain ⟨x, hvalue, h⟩ := Except.bind_eq_ok_iff.mp h
      obtain ⟨ys, hrest, h⟩ := Except.bind_eq_ok_iff.mp h
      cases h
      exact .item hvalue (spells_of_json hrest)

theorem Members.spells_of_json {depth : Nat} :
    ∀ {members : Members} {front all : Entries Json},
      Tree.jsonMembers depth members front = .ok all →
        ∃ entries, members.Spells depth entries ∧ all = front.putAll entries
  | .done gap, front, all, h => by
      cases gap <;> rw [Tree.jsonMembers] at h <;> cases h
      exact ⟨[], .done _, rfl⟩
  | .notName _, front, all, h => by
      rw [Tree.jsonMembers] at h
      cases h
  | .nameOnly name _ _, front, all, h => by
      rw [Tree.jsonMembers] at h
      obtain ⟨_, _, h⟩ := Except.bind_eq_ok_iff.mp h
      cases h
  | .member name _ value _ rest, front, all, h => by
      rw [Tree.jsonMembers] at h
      obtain ⟨key, hname, h⟩ := Except.bind_eq_ok_iff.mp h
      obtain ⟨x, hvalue, h⟩ := Except.bind_eq_ok_iff.mp h
      obtain ⟨entries, hrest, hall⟩ := spells_of_json h
      exact ⟨(key, x) :: entries, .member hname hvalue hrest, hall⟩

/-- A tree whose value is read is the spelling of that value. -/
theorem Tree.spells_of_json {depth : Nat} {tree : Tree} {value : Json}
    (h : tree.json depth = .ok value) : tree.Spells depth value := by
  cases tree with
  | absent offset => rw [json] at h; cases h
  | stray offset => rw [json] at h; cases h
  | null start lexeme =>
      rw [json] at h
      obtain ⟨⟨⟩, hvalue, rfl⟩ := Except.map_eq_ok_iff.mp h
      exact .null hvalue
  | boolean start lexeme =>
      rw [json] at h
      obtain ⟨b, hvalue, rfl⟩ := Except.map_eq_ok_iff.mp h
      exact .boolean hvalue
  | number start lexeme =>
      rw [json] at h
      obtain ⟨n, hvalue, rfl⟩ := Except.map_eq_ok_iff.mp h
      exact .number hvalue
  | string start lexeme =>
      rw [json] at h
      obtain ⟨s, hvalue, rfl⟩ := Except.map_eq_ok_iff.mp h
      exact .string hvalue
  | array start items =>
      rw [json] at h
      obtain _ | _ | depth := depth
      · cases h
      · cases h
      · rw [if_neg (by omega)] at h
        obtain ⟨xs, hitems, rfl⟩ := Except.map_eq_ok_iff.mp h
        exact .array (Nat.succ_pos depth) (Items.spells_of_json hitems)
  | object start members =>
      rw [json] at h
      obtain _ | _ | depth := depth
      · cases h
      · cases h
      · rw [if_neg (by omega)] at h
        obtain ⟨all, hmembers, rfl⟩ := Except.map_eq_ok_iff.mp h
        obtain ⟨entries, hspell, rfl⟩ := Members.spells_of_json hmembers
        exact .object (Nat.succ_pos depth) hspell

/-! ## The last member of a name -/

/-- The value of the last member of a name. -/
def Members.last? (key : String) : Members → Option Tree
  | .member name _ value _ rest =>
    (rest.last? key).or (if name.value.toOption = some key then some value else none)
  | _ => none

/-- The last value of a name is what the last member of that name spells. -/
theorem Members.Spells.rel_last? {depth : Nat} {members : Members} {entries : Entries Json}
    (h : members.Spells depth entries) (key : String) :
    Option.Rel (fun tree x => tree.json depth = .ok x) (members.last? key)
      (Entries.get? entries.reverse key) := by
  induction h with
  | done stop => exact .none
  | @member _ _ _ _ rest name _ entries hname hvalue _ ih =>
      rw [List.reverse_cons, Entries.get?_append, last?, hname, Except.toOption, Entries.get?_cons]
      generalize rest.last? key = last at ih
      generalize Entries.get? entries.reverse key = got at ih
      -- a later member of the name wins; without one it is this member or none
      cases ih with
      | some hjson => exact .some hjson
      | none =>
          by_cases hkey : name = key
          · rw [if_pos (congrArg some hkey), if_pos hkey]
            exact .some hvalue
          · rw [if_neg (fun heq => hkey (Option.some.inj heq)), if_neg hkey]
            exact .none

/-- The value of an object has under a name what the last member of that name spells. -/
theorem Tree.get?_of_json_object {depth start : Nat} {members : Members} {all : Entries Json}
    (h : (Tree.object start members).json depth = .ok (.object all)) (key : String) :
    Option.Rel (fun tree x => tree.json (depth - 1) = .ok x) (members.last? key)
      (all.get? key) := by
  cases spells_of_json h with
  | object _ hmembers =>
      rw [Entries.get?_putAll, Entries.get?_nil, Option.or_none]
      exact hmembers.rel_last? key

end RecordSchema
