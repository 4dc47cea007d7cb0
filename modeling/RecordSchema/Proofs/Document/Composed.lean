import RecordSchema.Proofs.Document.Reading

/-!
# The parts of a text at other places

The part of a text that a value, a list of items or some members take is that very part at any
other place, and the trees are alike. The end of the text that is read is known only where the
reader has gone on behind it, or where the list has its closing bracket.

The members of an object are told apart from the brace behind them: with a comma in its place,
members of another object may follow (`Members.SpeltBy`).

Main statements: `exists_readValue`, `exists_readItem` and `exists_readMember`.
-/

namespace RecordSchema

/-! ## Parts of a text -/

/-- Wherever the text stands, the tree is read from it, if it is a number no further than it
goes. -/
def Tree.SpeltBy (tree : Tree) (text : List Char) : Prop :=
  ∀ other, Delimits other → ∀ offset, ∃ tree',
    (readValue (text ++ other) offset).pair = (tree', other) ∧ tree.Alike tree'

/-- Wherever the text stands, the items are read from it, with the bracket at its end. -/
def Items.SpeltBy (items : Items) (text : List Char) : Prop :=
  ∀ other offset, ∃ items',
    (readItem (text ++ other) offset).pair = (items', other) ∧ items.Alike items'

/-- The members that a text reads as behind others, and what is behind them: none if it is a brace,
and those that follow if it is a comma. -/
inductive Members.Follow : List Char → Members → List Char → Prop
  | close (stop : Nat) (rest : List Char) : Follow ('\x7d' :: rest) (.done (.closed stop)) rest
  | next {tail part rest : List Char} {back : Members} :
      Opens '\x7d' tail part →
      (∀ offset, ∃ back', (readMember part offset).pair = (back', rest) ∧ back.Alike back') →
        Follow (',' :: tail) back rest

/-- Wherever the text stands, the members are read from it, and behind them those that follow. -/
def Members.SpeltBy (members : Members) (text : List Char) : Prop :=
  ∀ tail back rest, Follow tail back rest → ∀ offset, ∃ members',
    (readMember (text ++ tail) offset).pair = (members', rest) ∧
      (members.append back).Alike members'

theorem Items.SpeltBy.ne_nil {items : Items} {text : List Char} (h : items.SpeltBy text) :
    text ≠ [] := by
  rintro rfl
  obtain ⟨items', hread, halike⟩ := h [] 0
  obtain ⟨settled, list, hread', -⟩ := readItem_reads [] 0
  rw [List.append_nil, hread', readValue] at hread
  obtain ⟨rfl, -⟩ := Prod.mk.inj hread
  cases halike with
  | item hvalue _ => cases hvalue

/-- Members start with the quote of a name. -/
theorem Members.SpeltBy.head? {members : Members} {text : List Char} (h : members.SpeltBy text) :
    text.head? = some '"' := by
  obtain ⟨members', hread, halike⟩ := h _ _ _ (.close 0 []) 0
  obtain ⟨hvalue, -⟩ := Prod.mk.inj hread
  obtain ⟨name, rest, hname, -⟩ := exists_name (.inl (hvalue ▸ halike.closed))
  cases text with
  | nil => cases hname
  | cons c text => rw [(List.cons.inj hname).1, List.head?_cons]

/-! ### Lists -/

/-- The part of a text that the rest of a list of items takes, if its items are parts. -/
theorem Items.exists_front {onward : List Char → List Char → Prop}
    (honward : SettlesNext ']' onward) {s : List Char} {list : Items × List Char}
    (hreads : ReadsList ']' onward .done (fun part offset => (readItem part offset).pair) s list)
    (hlist : list.1.Closed ∨ list.2 ≠ [])
    (hitem : ∀ part offset items rest, onward s part →
      (readItem part offset).pair = (items, rest) → items.Closed ∨ rest ≠ [] →
        ∃ text, part = text ++ rest ∧ items.SpeltBy text) :
    ∃ front, s = front ++ list.2 ∧ ∀ other,
      (NextIs ']' (front ++ other) other ∨ ∃ part, onward (front ++ other) part) ∧
        ∀ list', ReadsList ']' onward .done (fun part offset => (readItem part offset).pair)
          (front ++ other) list' → list'.2 = other ∧ list.1.Alike list'.1 := by
  cases hreads with
  | @close rest stop hnext =>
      obtain ⟨blanks, rfl, hblanks, hc⟩ := hnext.exists_blanks
      refine ⟨blanks ++ [']'], by simp, fun other => ?_⟩
      rw [List.append_assoc, List.singleton_append]
      have hother : NextIs ']' (blanks ++ ']' :: other) other := nextIs_append hblanks hc
      refine ⟨.inl hother, fun list' hreads' => ?_⟩
      obtain ⟨stop', rfl⟩ := hreads'.eq_close honward hother
      exact ⟨rfl, .done⟩
  | next part offset hpart =>
      obtain ⟨text, htext, hspelt⟩ := hitem part offset _ _ hpart rfl hlist
      obtain ⟨front, rfl, hothers⟩ := honward.exists_front hpart
      refine ⟨front ++ text, by rw [List.append_assoc]; exact congrArg (front ++ ·) htext,
        fun other => ?_⟩
      have hhead : (text ++ other).head? = part.head? := by
        rw [htext]
        obtain ⟨c, text, rfl⟩ := List.exists_cons_of_ne_nil hspelt.ne_nil
        rfl
      rw [List.append_assoc]
      refine ⟨.inr ⟨_, hothers _ hhead⟩, fun list' hreads' => ?_⟩
      obtain ⟨offset', rfl⟩ := hreads'.eq_next honward (hothers _ hhead)
      obtain ⟨items', hread, halike⟩ := hspelt other offset'
      rw [hread]
      exact ⟨rfl, halike⟩
  | broken _ _ hgap =>
      rcases hlist with ⟨stop, hstop⟩ | hne
      · exact absurd hstop (hgap stop)
      · exact absurd rfl hne

/-- Behind blanks the members follow in the same way. -/
theorem Members.Follow.reads {tail rest blanks : List Char} {back : Members}
    (h : Follow tail back rest) (hblanks : ∀ b ∈ blanks, isJsonBlank b = true) :
    Delimits (blanks ++ tail) ∧
      ∀ list, ReadsList '\x7d' (GoesOn '\x7d') .done
        (fun part offset => (readMember part offset).pair) (blanks ++ tail) list →
          list.2 = rest ∧ back.Alike list.1 := by
  cases h with
  | close stop rest =>
      have hnext : NextIs '\x7d' (blanks ++ '\x7d' :: rest) rest :=
        nextIs_append hblanks (by decide)
      refine ⟨hnext.delimits (by decide), fun list hreads => ?_⟩
      obtain ⟨stop', rfl⟩ := hreads.eq_close (goesOn_settlesNext _ (by decide)) hnext
      exact ⟨rfl, .done⟩
  | @next tail part rest back hpart hback =>
      have hgoesOn : GoesOn '\x7d' (blanks ++ ',' :: tail) part :=
        ⟨tail, nextIs_append hblanks (by decide), hpart⟩
      refine ⟨hgoesOn.delimits, fun list hreads => ?_⟩
      obtain ⟨offset, rfl⟩ := hreads.eq_next (goesOn_settlesNext _ (by decide)) hgoesOn
      obtain ⟨back', hread, halike⟩ := hback offset
      rw [hread]
      exact ⟨rfl, halike⟩

/-- The part of a text that members take behind a value, if those behind the next comma are a
part. -/
theorem Members.exists_front {s : List Char} {list : Members × List Char}
    (hreads : ReadsList '\x7d' (GoesOn '\x7d') .done
      (fun part offset => (readMember part offset).pair) s list)
    (hlist : list.1.Closed ∨ list.2 ≠ [])
    (hmember : ∀ part offset members rest, GoesOn '\x7d' s part →
      (readMember part offset).pair = (members, rest) → members.Closed ∨ rest ≠ [] →
        ∃ text, part = text ++ '\x7d' :: rest ∧ members.SpeltBy text) :
    ∃ front, s = front ++ '\x7d' :: list.2 ∧ ∀ tail back rest, Follow tail back rest →
      Delimits (front ++ tail) ∧
        ∀ list', ReadsList '\x7d' (GoesOn '\x7d') .done
          (fun part offset => (readMember part offset).pair) (front ++ tail) list' →
            list'.2 = rest ∧ (list.1.append back).Alike list'.1 := by
  cases hreads with
  | @close rest stop hnext =>
      obtain ⟨blanks, rfl, hblanks, -⟩ := hnext.exists_blanks
      exact ⟨blanks, rfl, fun tail back rest hfollow => hfollow.reads hblanks⟩
  | next part offset hpart =>
      obtain ⟨text, htext, hspelt⟩ := hmember part offset _ _ hpart rfl hlist
      have honward := goesOn_settlesNext '\x7d' (by decide)
      obtain ⟨front, rfl, hothers⟩ := honward.exists_front hpart
      refine ⟨front ++ text, by rw [List.append_assoc]; exact congrArg (front ++ ·) htext,
        fun tail back rest hfollow => ?_⟩
      have hhead : (text ++ tail).head? = part.head? := by
        rw [htext]
        have hquote := hspelt.head?
        obtain ⟨others, rfl⟩ := List.head?_eq_some_iff.mp hquote
        rfl
      rw [List.append_assoc]
      refine ⟨(hothers _ hhead).delimits, fun list' hreads' => ?_⟩
      obtain ⟨offset', rfl⟩ := hreads'.eq_next honward (hothers _ hhead)
      obtain ⟨members', hread, halike⟩ := hspelt tail back rest hfollow offset'
      rw [hread]
      exact ⟨rfl, halike⟩
  | broken _ _ hgap =>
      rcases hlist with ⟨stop, hstop⟩ | hne
      · exact absurd hstop (hgap stop)
      · exact absurd rfl hne

/-- An object without members, elsewhere. -/
theorem readMembers_blanks {blanks : List Char} (hblanks : ∀ b ∈ blanks, isJsonBlank b = true)
    (rest : List Char) (offset : Nat) :
    ∃ stop, (readMembers (blanks ++ '\x7d' :: rest) offset).pair = (.done (.closed stop), rest) :=
  (readMembers_reads _ offset).eq_close (opens_settlesNext _) (nextIs_append hblanks (by decide))

/-- The members of an object, elsewhere. -/
theorem Members.SpeltBy.readMembers {members : Members} {text : List Char}
    (h : members.SpeltBy text) {blanks : List Char} (hblanks : ∀ b ∈ blanks, isJsonBlank b = true)
    {tail rest : List Char} {back : Members} (hfollow : Follow tail back rest) (offset : Nat) :
    ∃ members', (RecordSchema.readMembers (blanks ++ (text ++ tail)) offset).pair =
      (members', rest) ∧ (members.append back).Alike members' := by
  obtain ⟨others, rfl⟩ := List.head?_eq_some_iff.mp h.head?
  have hopens : Opens '\x7d' (blanks ++ ('"' :: others ++ tail)) ('"' :: others ++ tail) :=
    opens_cons (nextIs_append hblanks (by decide)) (by decide)
  obtain ⟨offset', hread⟩ := (readMembers_reads _ offset).eq_next (opens_settlesNext _) hopens
  rw [hread]
  exact h tail back rest hfollow offset'

/-- The part of a text that an object takes behind its opening brace: only blanks and a closing
brace, or members between them, if these are a part. -/
theorem Members.exists_body {s rest : List Char} {offset : Nat} {members : Members}
    (hread : (RecordSchema.readMembers s offset).pair = (members, rest))
    (hlist : members.Closed ∨ rest ≠ [])
    (hmember : ∀ part offset members rest, Opens '\x7d' s part →
      (readMember part offset).pair = (members, rest) → members.Closed ∨ rest ≠ [] →
        ∃ text, part = text ++ '\x7d' :: rest ∧ members.SpeltBy text) :
    ∃ blanks, (∀ b ∈ blanks, isJsonBlank b = true) ∧
      (s = blanks ++ '\x7d' :: rest ∧ (∃ stop, members = .done (.closed stop)) ∨
        ∃ text, s = blanks ++ (text ++ '\x7d' :: rest) ∧ members.SpeltBy text) := by
  have hreads := readMembers_reads s offset
  rw [hread] at hreads
  generalize hpair : (members, rest) = list at hreads
  cases hreads with
  | close stop hnext =>
      obtain ⟨rfl, rfl⟩ := Prod.mk.inj hpair
      obtain ⟨blanks, rfl, hblanks, -⟩ := hnext.exists_blanks
      exact ⟨blanks, hblanks, .inl ⟨rfl, stop, rfl⟩⟩
  | next part offset hpart =>
      obtain ⟨text, rfl, hspelt⟩ := hmember part offset _ _ hpart hpair.symm hlist
      obtain ⟨others, rfl⟩ := List.head?_eq_some_iff.mp hspelt.head?
      obtain ⟨blanks, rfl, hblanks, -⟩ := NextIs.exists_blanks hpart.1
      exact ⟨blanks, hblanks, .inr ⟨_, rfl, hspelt⟩⟩
  | broken _ _ hgap =>
      obtain ⟨rfl, rfl⟩ := Prod.mk.inj hpair
      rcases hlist with ⟨stop, hstop⟩ | hne
      · exact absurd hstop (hgap stop)
      · exact absurd rfl hne

/-- The part of a text that the members of an object take, up to the closing brace. -/
theorem Members.exists_inner {s rest : List Char} {offset : Nat} {members : Members}
    (hread : (RecordSchema.readMembers s offset).pair = (members, rest))
    (hlist : members.Closed ∨ rest ≠ [])
    (hmember : ∀ part offset members rest, Opens '\x7d' s part →
      (readMember part offset).pair = (members, rest) → members.Closed ∨ rest ≠ [] →
        ∃ text, part = text ++ '\x7d' :: rest ∧ members.SpeltBy text) :
    ∃ inner, s = inner ++ '\x7d' :: rest ∧ ∀ other offset, ∃ members',
      (RecordSchema.readMembers (inner ++ '\x7d' :: other) offset).pair = (members', other) ∧
        members.Alike members' := by
  obtain ⟨blanks, hblanks, ⟨rfl, stop, rfl⟩ | ⟨text, rfl, hspelt⟩⟩ :=
    Members.exists_body hread hlist hmember
  · refine ⟨blanks, rfl, fun other offset => ?_⟩
    obtain ⟨stop', hread'⟩ := readMembers_blanks hblanks other offset
    exact ⟨_, hread', .done⟩
  · refine ⟨blanks ++ text, (List.append_assoc _ _ _).symm, fun other offset => ?_⟩
    obtain ⟨members', hread', halike⟩ := hspelt.readMembers hblanks (.close 0 other) offset
    rw [List.append_assoc]
    exact ⟨members', hread', halike.of_append_done⟩

/-! ### Lexemes -/

/-- Words are parts of a text: null and the two Boolean values. -/
theorem exists_word {α : Type} {first : Char} {word : List Char} {value : α}
    {node : Nat → Lexeme α → Tree}
    (hread : ∀ s offset, (readValue (first :: s) offset).pair =
      (node offset (scanWord value word s (offset + 1)).1,
        (scanWord value word s (offset + 1)).2))
    (hnode : ∀ start start' stop stop',
      (node start (.good value stop)).Alike (node start' (.good value stop')))
    {s : List Char} {offset : Nat} (h : (scanWord value word s (offset + 1)).2 ≠ []) :
    ∃ text, first :: s = text ++ (scanWord value word s (offset + 1)).2 ∧
      (node offset (scanWord value word s (offset + 1)).1).SpeltBy text := by
  have hs := eq_append_of_scanWord h
  have hword := scanWord_append value word (scanWord value word s (offset + 1)).2 (offset + 1)
  rw [← hs] at hword
  refine ⟨first :: word, congrArg (first :: ·) hs, fun other _ offset' => ?_⟩
  refine ⟨node offset' (.good value (offset' + 1 + word.length)), ?_, ?_⟩
  · rw [List.cons_append, hread, scanWord_append]
  · rw [congrArg Prod.fst hword]
    exact hnode _ _ _ _

theorem exists_number {c : Char} (hc : c = '-' ∨ c.isDigit) {s : List Char} {offset : Nat}
    (h : (scanNumber (c :: s) offset).2 ≠ []) :
    ∃ text, c :: s = text ++ (scanNumber (c :: s) offset).2 ∧
      (Tree.number offset (scanNumber (c :: s) offset).1).SpeltBy text := by
  obtain ⟨text, hs, hne, hothers⟩ := exists_scanNumber h
  refine ⟨text, hs, fun other hother offset' => ?_⟩
  obtain ⟨halike, hrest⟩ := hothers other hother offset'
  obtain ⟨d, text, rfl⟩ := List.exists_cons_of_ne_nil hne
  obtain rfl : c = d := (List.cons.inj hs).1
  exact ⟨_, (readValue_number hc _ _).trans (congrArg (Prod.mk _) hrest), .number halike⟩

theorem exists_string {s : List Char} {offset : Nat}
    (h : (scanString s (offset + 1) [] none).2 ≠ []) :
    ∃ text, '"' :: s = text ++ (scanString s (offset + 1) [] none).2 ∧
      (Tree.string offset (scanString s (offset + 1) [] none).1).SpeltBy text := by
  obtain ⟨text, htext, hs⟩ := exists_closesString s (offset + 1) [] none h
  refine ⟨'"' :: text, congrArg ('"' :: ·) hs, fun other _ offset' => ?_⟩
  obtain ⟨halike, hother⟩ := htext.scanString_start (scanString s (offset + 1) [] none).2 other
    (offset + 1) (offset' + 1)
  rw [← hs] at halike
  exact ⟨_, (readValue_string _ _).trans (congrArg (Prod.mk _) hother), .string halike⟩

theorem Tree.SpeltBy.ne_nil {tree : Tree} {text : List Char} (h : tree.SpeltBy text) :
    text ≠ [] := by
  rintro rfl
  obtain ⟨tree', hread, halike⟩ := h [] (by rintro c ⟨⟩) 0
  rw [List.append_nil, readValue] at hread
  obtain ⟨rfl, -⟩ := Prod.mk.inj hread
  cases halike

/-- The part of a text that a name takes, with the colon behind it. -/
theorem exists_nameFront {s tail : List Char} {offset : Nat}
    (hcolon : NextIs ':' (scanString s (offset + 1) [] none).2 tail) :
    ∃ front, s = front ++ tail ∧ ∀ tail' offset',
      NextIs ':' (scanString (front ++ tail') (offset' + 1) [] none).2 tail' ∧
        (scanString s (offset + 1) [] none).1.Alike
          (scanString (front ++ tail') (offset' + 1) [] none).1 := by
  obtain ⟨text, htext, hs⟩ := exists_closesString s (offset + 1) [] none hcolon.ne_nil
  obtain ⟨blanks, hbehind, hblanks, hc⟩ := hcolon.exists_blanks
  refine ⟨text ++ (blanks ++ [':']), ?_, fun tail' offset' => ?_⟩
  · rw [hbehind] at hs
    simpa using hs
  · obtain ⟨halike, hother⟩ := htext.scanString_start (scanString s (offset + 1) [] none).2
      (blanks ++ ':' :: tail') (offset + 1) (offset' + 1)
    rw [← hs] at halike
    rw [List.append_assoc, List.append_assoc, List.singleton_append, hother]
    exact ⟨nextIs_append hblanks hc, halike⟩

/-! ### Values, items and members -/

mutual

/-- A value is read from a part of a text, and is the same wherever this stands. -/
theorem exists_readValue (s : List Char) (offset : Nat) {tree : Tree} {rest : List Char}
    (hread : (readValue s offset).pair = (tree, rest)) (hrest : rest ≠ []) :
    ∃ text, s = text ++ rest ∧ tree.SpeltBy text := by
  obtain ⟨c, s, rfl, hc⟩ : ∃ c s', s = c :: s' ∧ StartsValue c :=
    exists_startsValue ((Prod.mk.inj hread).2 ▸ hrest)
  cases hc with
  | array =>
      rw [readValue_array] at hread
      obtain ⟨rfl, rfl⟩ := Prod.mk.inj hread
      obtain ⟨front, hfront, hothers⟩ := Items.exists_front (opens_settlesNext ']')
        (readItems_reads s (offset + 1)) (.inr hrest)
        fun part offset items rest hpart hread hlist => by
          have hle := (opens_settlesNext ']').shorter hpart
          exact exists_readItem part offset hread hlist
      refine ⟨'[' :: front, congrArg ('[' :: ·) hfront, fun other _ offset' => ?_⟩
      obtain ⟨hother, halike⟩ :=
        (hothers other).2 _ (readItems_reads (front ++ other) (offset' + 1))
      exact ⟨_, (readValue_array _ _).trans (congrArg (Prod.mk _) hother), .array halike⟩
  | object =>
      rw [readValue_object] at hread
      obtain ⟨rfl, rfl⟩ := Prod.mk.inj hread
      have hread : (readMembers s (offset + 1)).pair = (_, _) := rfl
      obtain ⟨inner, hs, hothers⟩ := Members.exists_inner hread (.inr hrest)
        fun part offset members rest hpart hread hlist => by
          have hle := (opens_settlesNext '\x7d').shorter hpart
          exact exists_readMember part offset hread hlist
      refine ⟨'\x7b' :: (inner ++ ['\x7d']), by simpa using hs, fun other _ offset' => ?_⟩
      obtain ⟨members', hread', halike⟩ := hothers other (offset' + 1)
      obtain ⟨hvalue, hrest'⟩ := Prod.mk.inj hread'
      refine ⟨.object offset' members', ?_, .object halike⟩
      rw [List.cons_append, List.append_assoc, List.singleton_append, readValue_object, hvalue,
        hrest']
  | string =>
      rw [readValue_string] at hread
      obtain ⟨rfl, rfl⟩ := Prod.mk.inj hread
      exact exists_string hrest
  | number hc =>
      rw [readValue_number hc] at hread
      obtain ⟨rfl, rfl⟩ := Prod.mk.inj hread
      exact exists_number hc hrest
  | null =>
      rw [readValue_null] at hread
      obtain ⟨rfl, rfl⟩ := Prod.mk.inj hread
      exact exists_word readValue_null (fun _ _ _ _ => .null) hrest
  | true =>
      rw [readValue_true] at hread
      obtain ⟨rfl, rfl⟩ := Prod.mk.inj hread
      exact exists_word readValue_true (fun _ _ _ _ => .boolean _) hrest
  | false =>
      rw [readValue_false] at hread
      obtain ⟨rfl, rfl⟩ := Prod.mk.inj hread
      exact exists_word readValue_false (fun _ _ _ _ => .boolean _) hrest
termination_by 3 * s.length
decreasing_by all_goals grind

/-- So are items, with the bracket behind them. -/
theorem exists_readItem (s : List Char) (offset : Nat) {items : Items} {rest : List Char}
    (hread : (readItem s offset).pair = (items, rest)) (hlist : items.Closed ∨ rest ≠ []) :
    ∃ text, s = text ++ rest ∧ items.SpeltBy text := by
  have hfits := (readValue s offset).fits
  obtain ⟨settled, list, hpair, hreads⟩ := readItem_reads s offset
  rw [hpair] at hread
  obtain ⟨rfl, rfl⟩ := Prod.mk.inj hread
  rw [Items.Closed] at hlist
  obtain ⟨front, hfront, hothers⟩ := Items.exists_front (goesOn_settlesNext _ (by decide)) hreads
    hlist fun part offset items rest hpart hread hlist => by
      have hlt := hpart.length_lt
      exact exists_readItem part offset hread hlist
  have hdelimits (other : List Char) : Delimits (front ++ other) ∧ front ++ other ≠ [] := by
    rcases (hothers other).1 with hclose | ⟨part, hpart⟩
    · exact ⟨hclose.delimits (by decide), hclose.ne_nil⟩
    · exact ⟨hpart.delimits, hpart.choose_spec.1.ne_nil⟩
  obtain ⟨text, htext, hspelt⟩ := exists_readValue s offset rfl (hfront ▸ (hdelimits _).2)
  refine ⟨text ++ front, by rw [List.append_assoc, ← hfront, ← htext], fun other offset' => ?_⟩
  obtain ⟨tree', hread', htree⟩ := hspelt (front ++ other) (hdelimits other).1 offset'
  obtain ⟨hvalue, hrest⟩ := Prod.mk.inj hread'
  obtain ⟨settled', list', hpair', hreads'⟩ := readItem_reads (text ++ (front ++ other)) offset'
  rw [hrest] at hreads'
  obtain ⟨hother, hitems⟩ := (hothers other).2 list' hreads'
  refine ⟨.item offset' tree' settled' list'.1, ?_, .item htree hitems⟩
  rw [List.append_assoc, hpair', hvalue, hother]
termination_by 3 * s.length + 1
decreasing_by all_goals omega

/-- So are members, without the brace behind them. -/
theorem exists_readMember (s : List Char) (offset : Nat) {members : Members} {rest : List Char}
    (hread : (readMember s offset).pair = (members, rest)) (hlist : members.Closed ∨ rest ≠ []) :
    ∃ text, s = text ++ '\x7d' :: rest ∧ members.SpeltBy text := by
  obtain ⟨text, tail, rfl, hcolon⟩ : ∃ text tail, s = '"' :: text ∧
      NextIs ':' (scanString text (offset + 1) [] none).2 tail :=
    exists_name ((Prod.mk.inj hread).1 ▸ (Prod.mk.inj hread).2 ▸ hlist)
  obtain ⟨start, nameSettled, settled, list, hpair, hreads⟩ := readMember_reads hcolon
  rw [hpair] at hread
  obtain ⟨rfl, rfl⟩ := Prod.mk.inj hread
  rw [Members.Closed] at hlist
  obtain ⟨name, rfl, hnames⟩ := exists_nameFront hcolon
  have hfits := (readValue (tail.dropWhile isJsonBlank) start).fits
  have hbody : (tail.dropWhile isJsonBlank).length ≤ tail.length := List.length_dropWhile_le _ _
  obtain ⟨front, hfront, hothers⟩ := Members.exists_front hreads hlist
    fun part offset members rest hpart hread hlist => by
      have hlt := hpart.length_lt
      exact exists_readMember part offset hread hlist
  have hne : (readValue (tail.dropWhile isJsonBlank) start).rest ≠ [] := by
    rw [hfront]
    simp
  obtain ⟨text, htext, hspelt⟩ := exists_readValue (tail.dropWhile isJsonBlank) start rfl hne
  obtain ⟨blanks, htail, hblanks⟩ := exists_blanks_of_dropWhile htext hspelt.ne_nil
  refine ⟨'"' :: (name ++ (blanks ++ (text ++ front))), ?_,
    fun other back rest hfollow offset' => ?_⟩
  · simp only [List.cons_append, List.append_assoc]
    rw [← hfront, ← htail]
  · obtain ⟨hdelimits, hlists⟩ := hothers other back rest hfollow
    obtain ⟨hcolon', halike⟩ := hnames (blanks ++ (text ++ (front ++ other))) offset'
    obtain ⟨start', nameSettled', settled', list', hpair', hreads'⟩ := readMember_reads hcolon'
    rw [hblanks] at hpair' hreads'
    obtain ⟨tree', hread', htree⟩ := hspelt (front ++ other) hdelimits start'
    obtain ⟨hvalue, hrest⟩ := Prod.mk.inj hread'
    rw [hrest] at hreads'
    obtain ⟨hother, hmembers⟩ := hlists list' hreads'
    refine ⟨.member _ nameSettled' tree' settled' list'.1, ?_, .member halike htree hmembers⟩
    have hassoc : '"' :: (name ++ (blanks ++ (text ++ front))) ++ other =
        '"' :: (name ++ (blanks ++ (text ++ (front ++ other)))) := by
      simp only [List.cons_append, List.append_assoc]
    rw [hassoc, hpair', hvalue, hother]
termination_by 3 * s.length + 1
decreasing_by all_goals grind

end

end RecordSchema
