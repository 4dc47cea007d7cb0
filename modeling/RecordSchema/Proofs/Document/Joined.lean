import RecordSchema.Proofs.Document.Composed

/-!
# One document of several

Several texts that each describe a schema can be made into one that describes the types of all of
them: `Document.joined` takes off their braces and puts commas between what is left, where anything
is. Since members are a part of a text (`Members.SpeltBy`), they are read from the joined text as
before, those of each text behind those of the texts in front of it. So it describes these types,
in this order, provided that no name is declared twice: `Schema.ofText_joined`.
-/

namespace RecordSchema

/-! ## The text inside the braces -/

namespace Document

/-- The text behind the first character that is not a blank. -/
def behindFirst (s : List Char) : List Char :=
  (s.dropWhile isJsonBlank).tail

/-- The text between the braces of a text that holds an object. -/
def innerText (text : String) : List Char :=
  (behindFirst (behindFirst text.toList).reverse).reverse

/-- The text of an object with the members of several others, in order. -/
def joined (texts : List String) : String :=
  String.ofList ('\x7b' ::
    [','].intercalate ((texts.map innerText).filter fun inner => !inner.all isJsonBlank) ++
      ['\x7d'])

theorem behindFirst_append {blanks : List Char} (hblanks : ∀ b ∈ blanks, isJsonBlank b = true)
    {c : Char} (hc : isJsonBlank c = false) (rest : List Char) :
    behindFirst (blanks ++ c :: rest) = rest := by
  rw [behindFirst, nextIs_append hblanks hc, List.tail_cons]

theorem innerText_eq {text : String} {blanks inner blanks' : List Char}
    (htext : text.toList = blanks ++ '\x7b' :: (inner ++ '\x7d' :: blanks'))
    (hblanks : ∀ b ∈ blanks, isJsonBlank b = true)
    (hblanks' : ∀ b ∈ blanks', isJsonBlank b = true) : innerText text = inner := by
  have hreverse : ∀ b ∈ blanks'.reverse, isJsonBlank b = true :=
    fun b hb => hblanks' b (List.mem_reverse.mp hb)
  rw [innerText, htext, behindFirst_append hblanks (by decide), List.reverse_append,
    List.reverse_cons, List.append_assoc, List.singleton_append,
    behindFirst_append hreverse (by decide), List.reverse_reverse]

/-- The root of a text and its end, up to the offset. -/
theorem exists_reading (text : String) : ∃ offset,
    (ofText text).root = (readValue (text.toList.dropWhile isJsonBlank) offset).value ∧
      ((ofText text).checkEnd = .ok () ↔ (readValue (text.toList.dropWhile isJsonBlank)
        offset).rest.dropWhile isJsonBlank = []) := by
  refine ⟨(skipFrom text.toList 0).offset, ?_⟩
  rw [ofText, ← rest_skipFrom text.toList 0]
  refine ⟨rfl, ?_⟩
  dsimp only [checkEnd]
  rw [Reading.rest_skip]
  cases (readValue (skipFrom text.toList 0).rest (skipFrom text.toList 0).offset).rest.dropWhile
    isJsonBlank <;> simp

end Document

/-! ## Schemas of texts -/

theorem Tree.schema_eq_ok_iff {tree : Tree} {schema : Schema} :
    (tree.schema depthLimit).outcome = .ok schema ↔ ∃ start members,
      tree = .object start members ∧
        (typeMembers (depthLimit - 1) members []).outcome = .ok schema ∧ "" ∉ schema.names := by
  cases tree with
  | object start members =>
      rw [Tree.schema, if_neg (by decide), Logged.bind_def, Logged.outcome_bind]
      constructor
      · intro h
        obtain ⟨types, htypes, h⟩ := Except.bind_eq_ok_iff.mp h
        split_ifs at h with hempty
        · cases h
        · cases h
          exact ⟨start, members, rfl, htypes, mt Entries.has_iff_mem_names.mpr hempty⟩
      · rintro ⟨_, _, ⟨⟩, htypes, hempty⟩
        refine Except.bind_eq_ok_iff.mpr ⟨schema, htypes, ?_⟩
        rw [if_neg (mt Entries.has_iff_mem_names.mp hempty)]
        rfl
  | _ =>
      constructor
      · rintro ⟨⟩
      · rintro ⟨_, _, ⟨⟩, -⟩

theorem Schema.ofText_eq_ok_iff {text : String} {schema : Schema} :
    (ofText text).outcome = .ok schema ↔
      ((Document.ofText text).root.schema depthLimit).outcome = .ok schema ∧
        (Document.ofText text).checkEnd = .ok () := by
  rw [ofText, Logged.mapError, Except.mapError_eq_ok_iff]
  constructor
  · intro h
    rw [decodeText, Logged.mapError, Except.mapError_eq_ok_iff, Logged.bind_def,
      Logged.outcome_bind] at h
    obtain ⟨types, htypes, h⟩ := Except.bind_eq_ok_iff.mp h
    rw [Logged.bind_def, Logged.outcome_bind] at h
    obtain ⟨⟨⟩, hcheck, h⟩ := Except.bind_eq_ok_iff.mp h
    cases h
    exact ⟨htypes, hcheck⟩
  · rintro ⟨htypes, hcheck⟩
    rw [outcome_decodeText hcheck, htypes]
    rfl

/-- A text inside braces from which a schema is read. -/
def Schema.IsReadFrom (schema : Schema) (inner : List Char) : Prop :=
  ∃ blanks text members, inner = blanks ++ text ∧ (∀ b ∈ blanks, isJsonBlank b = true) ∧
    members.SpeltBy text ∧
      (Tree.typeMembers (depthLimit - 1) members []).outcome = .ok schema

namespace Schema

theorem IsReadFrom.not_all_blank {schema : Schema} {inner : List Char}
    (h : schema.IsReadFrom inner) : ¬inner.all isJsonBlank = true := by
  obtain ⟨blanks, text, members, rfl, -, hspelt, -⟩ := h
  obtain ⟨others, rfl⟩ := List.head?_eq_some_iff.mp hspelt.head?
  rw [List.all_eq_true]
  exact fun hall => absurd (hall '"' (by simp)) (by decide)

theorem exists_object {s : List Char} {offset start : Nat} {members : Members}
    (h : (readValue s offset).value = .object start members) : ∃ t, s = '\x7b' :: t := by
  rw [readValue.eq_def] at h
  split at h
  · cases h
  · next c t =>
    split_ifs at h with h₁ h₂ h₃ h₄ h₅ h₆ h₇
    · cases h
    · exact ⟨t, by rw [h₂]⟩
    all_goals cases h

/-- A text that describes a schema has it, or nothing and no type, between its braces. -/
theorem isReadFrom_of_ofText {text : String} {schema : Schema}
    (h : (ofText text).outcome = .ok schema) :
    "" ∉ schema.names ∧ schema.names.Nodup ∧
      ((Document.innerText text).all isJsonBlank = true ∧ schema = [] ∨
        schema.IsReadFrom (Document.innerText text)) := by
  obtain ⟨hschema, hcheck⟩ := ofText_eq_ok_iff.mp h
  obtain ⟨offset, hroot, hend⟩ := Document.exists_reading text
  obtain ⟨start, members, hobject, htypes, hempty⟩ := Tree.schema_eq_ok_iff.mp hschema
  have hrest := hend.mp hcheck
  rw [hroot] at hobject
  obtain ⟨t, ht⟩ := exists_object hobject
  rw [ht] at hobject hrest
  obtain ⟨hvalue, hbehind⟩ := Prod.mk.inj (readValue_object t offset)
  rw [hvalue] at hobject
  rw [hbehind, List.dropWhile_eq_nil_iff] at hrest
  obtain ⟨-, rfl⟩ := Tree.object.inj hobject
  have hread : (readMembers t (offset + 1)).pair = (_, _) := rfl
  rw [Tree.typeMembers_eq] at htypes
  obtain ⟨_, -, hnodup⟩ := Tree.exists_of_readEntries (by simp) htypes
  refine ⟨hempty, hnodup, ?_⟩
  obtain ⟨blanks, hfront, hblanks, -⟩ := NextIs.exists_blanks ht
  obtain ⟨blanks', hblanks', ⟨hinner, stop, hmembers⟩ | ⟨inner, hinner, hspelt⟩⟩ :=
    Members.exists_body hread (.inl (Tree.closed_of_readEntries htypes))
      fun part offset members rest _ hread hlist => exists_readMember part offset hread hlist
  · rw [hinner] at hfront
    rw [Document.innerText_eq hfront hblanks hrest]
    rw [hmembers] at htypes
    exact .inl ⟨List.all_eq_true.mpr hblanks', (Tree.readEntries_done_eq_ok_iff.mp htypes).2.symm⟩
  · rw [hinner, ← List.append_assoc] at hfront
    rw [Document.innerText_eq hfront hblanks hrest]
    exact .inr ⟨blanks', inner, _, rfl, hblanks', hspelt, Tree.typeMembers_eq _ _ _ ▸ htypes⟩

/-- A text between braces describes what its members do. -/
theorem ofText_braces {inner : List Char} {schema : Schema}
    (h : ∀ offset, ∃ members, (readMembers (inner ++ ['\x7d']) offset).pair = (members, []) ∧
      (Tree.typeMembers (depthLimit - 1) members []).outcome = .ok schema)
    (hempty : "" ∉ schema.names) :
    (ofText (String.ofList ('\x7b' :: inner ++ ['\x7d']))).outcome = .ok schema := by
  obtain ⟨offset, hroot, hend⟩ :=
    Document.exists_reading (String.ofList ('\x7b' :: inner ++ ['\x7d']))
  have hskip : (String.ofList ('\x7b' :: inner ++ ['\x7d'])).toList.dropWhile isJsonBlank =
      '\x7b' :: (inner ++ ['\x7d']) := by
    rw [String.toList_ofList]
    rfl
  rw [hskip] at hroot hend
  obtain ⟨hvalue, hrest⟩ := Prod.mk.inj (readValue_object (inner ++ ['\x7d']) offset)
  obtain ⟨members, hread, htypes⟩ := h (offset + 1)
  obtain ⟨hmembers, hbehind⟩ := Prod.mk.inj hread
  rw [hvalue, hmembers] at hroot
  rw [hrest, hbehind] at hend
  refine ofText_eq_ok_iff.mpr ⟨?_, hend.mpr rfl⟩
  exact Tree.schema_eq_ok_iff.mpr ⟨offset, members, hroot, htypes, hempty⟩

theorem IsReadFrom.ofText_braces {schema : Schema} {inner : List Char}
    (h : schema.IsReadFrom inner) (hempty : "" ∉ schema.names) :
    (ofText (String.ofList ('\x7b' :: inner ++ ['\x7d']))).outcome = .ok schema := by
  obtain ⟨blanks, text, members, rfl, hblanks, hspelt, htypes⟩ := h
  refine Schema.ofText_braces (fun offset => ?_) hempty
  obtain ⟨members', hread, halike⟩ := hspelt.readMembers hblanks (.close 0 []) offset
  rw [List.append_assoc]
  have hagrees := halike.of_append_done.typeMembers (depthLimit - 1) []
  exact ⟨members', hread, ((hagrees schema).mp htypes).1⟩

theorem ofText_empty_braces :
    (ofText (String.ofList ('\x7b' :: [] ++ ['\x7d']))).outcome = .ok [] := by
  refine ofText_braces (fun offset => ?_) (by simp)
  have hblanks : ∀ b ∈ ([] : List Char), isJsonBlank b = true := by simp
  obtain ⟨stop, hread⟩ := readMembers_blanks hblanks [] offset
  exact ⟨_, hread, rfl⟩

end Schema

/-! ## Joining -/

theorem Members.append_assoc (back last : Members) : ∀ members : Members,
    (members.append back).append last = members.append (back.append last)
  | .done (.closed _) => rfl
  | .done (.ended _) => rfl
  | .done (.endedAfterComma _) => rfl
  | .done (.closedAfterComma _) => rfl
  | .done (.junk _) => rfl
  | .notName _ => rfl
  | .nameOnly _ _ _ => rfl
  | .member _ _ _ _ rest => by
      rw [Members.append, Members.append, Members.append, Members.append_assoc back last rest]

/-- Members with a comma and others behind them are a part as well. -/
theorem Members.SpeltBy.append {members back : Members} {text blanks text' : List Char}
    (h : members.SpeltBy text) (hback : back.SpeltBy text')
    (hblanks : ∀ b ∈ blanks, isJsonBlank b = true) :
    (members.append back).SpeltBy (text ++ ',' :: (blanks ++ text')) := by
  intro tail last rest hfollow offset
  obtain ⟨others, rfl⟩ := List.head?_eq_some_iff.mp hback.head?
  have hopens : Opens '\x7d' (blanks ++ ('"' :: others ++ tail)) ('"' :: others ++ tail) :=
    opens_cons (nextIs_append hblanks (by decide)) (by decide)
  have hassoc : text ++ ',' :: (blanks ++ '"' :: others) ++ tail =
      text ++ ',' :: (blanks ++ ('"' :: others ++ tail)) := by
    simp only [List.append_assoc, List.cons_append]
  rw [hassoc, Members.append_assoc]
  exact h _ _ _ (.next hopens (hback tail last rest hfollow)) offset

namespace Schema

theorem IsReadFrom.append {schema others : Schema} {inner inner' : List Char}
    (h : schema.IsReadFrom inner) (hothers : others.IsReadFrom inner')
    (hdisjoint : schema.names.Disjoint others.names) :
    (schema ++ others : Schema).IsReadFrom (inner ++ ',' :: inner') := by
  obtain ⟨blanks, text, members, rfl, hblanks, hspelt, htypes⟩ := h
  obtain ⟨blanks', text', members', rfl, hblanks', hspelt', htypes'⟩ := hothers
  refine ⟨blanks, text ++ ',' :: (blanks' ++ text'), members.append members',
    List.append_assoc _ _ _, hblanks, hspelt.append hspelt' hblanks', ?_⟩
  rw [Tree.typeMembers_eq] at htypes htypes' ⊢
  have hapart : ∀ name ∈ others.names, name ∉ schema.names :=
    fun name hname hname' => hdisjoint hname' hname
  have hnone : Entries.names ([] : Schema) |>.Nodup := by simp
  have hbehind := Tree.readEntries_behind htypes' hnone hapart
  rw [List.append_nil] at hbehind
  exact Tree.readEntries_append htypes hbehind

theorem mem_names_flatten {schemas : List Schema} {name : String} :
    name ∈ Entries.names schemas.flatten ↔ ∃ schema ∈ schemas, name ∈ schema.names := by
  simp only [Entries.names, List.map_flatten, List.mem_flatten, List.mem_map,
    exists_exists_and_eq_and]

/-- What is left of texts that describe schemas with different names is nothing, or the schemas
are read from it, one behind the other. -/
theorem isReadFrom_intercalate {texts : List String} {schemas : List Schema}
    (htexts : texts.map (fun text => (ofText text).outcome) = schemas.map .ok)
    (hdisjoint : schemas.Pairwise fun schema others => schema.names.Disjoint others.names) :
    let inners := (texts.map Document.innerText).filter fun inner => !inner.all isJsonBlank
    inners = [] ∧ schemas.flatten = [] ∨
      inners ≠ [] ∧ IsReadFrom schemas.flatten ([','].intercalate inners) := by
  induction texts generalizing schemas with
  | nil =>
      obtain rfl := List.map_eq_nil_iff.mp htexts.symm
      exact .inl ⟨rfl, rfl⟩
  | cons text texts ih =>
      obtain ⟨schema, schemas, rfl, hschema, hschemas⟩ := List.map_eq_cons_iff.mp htexts.symm
      obtain ⟨hnames, hdisjoint⟩ := List.pairwise_cons.mp hdisjoint
      have hrest := ih hschemas.symm hdisjoint
      obtain ⟨-, -, ⟨hblank, rfl⟩ | hread⟩ := isReadFrom_of_ofText hschema.symm
      · simpa [hblank] using hrest
      · refine .inr ?_
        rw [List.map_cons, List.filter_cons_of_pos (by simpa using hread.not_all_blank),
          List.flatten_cons]
        refine ⟨List.cons_ne_nil _ _, ?_⟩
        rcases hrest with ⟨hnone, hflatten⟩ | ⟨hsome, hrest⟩
        · rw [hnone, hflatten, List.intercalate_singleton, List.append_nil]
          exact hread
        · obtain ⟨inner, inners, hinners⟩ := List.exists_cons_of_ne_nil hsome
          rw [hinners] at hrest ⊢
          rw [List.intercalate_cons_cons, List.append_assoc]
          refine hread.append hrest fun name hname hothers => ?_
          obtain ⟨others, hmem, hname'⟩ := mem_names_flatten.mp hothers
          exact hnames others hmem hname hname'

/-- The joined text of texts that describe schemas with different names describes their types, in
the order of the texts. -/
theorem ofText_joined {texts : List String} {schemas : List Schema}
    (htexts : texts.map (fun text => (ofText text).outcome) = schemas.map .ok)
    (hdisjoint : schemas.Pairwise fun schema others => schema.names.Disjoint others.names) :
    (ofText (Document.joined texts)).outcome = .ok schemas.flatten := by
  rw [Document.joined]
  rcases isReadFrom_intercalate htexts hdisjoint with ⟨hnone, hflatten⟩ | ⟨-, hread⟩
  · rw [hnone, hflatten]
    exact ofText_empty_braces
  · refine hread.ofText_braces fun hempty => ?_
    obtain ⟨schema, hmem, hname⟩ := mem_names_flatten.mp hempty
    have hschema : (Except.ok schema : Except SchemaError Schema) ∈
        texts.map fun text => (ofText text).outcome := htexts ▸ List.mem_map_of_mem hmem
    obtain ⟨text, -, htext⟩ := List.mem_map.mp hschema
    exact (isReadFrom_of_ofText htext).1 hname

end Schema

end RecordSchema
