import RecordSchema.Proofs.Document.Routes

/-!
# Trees that say the same

The same parts may stand at different places of a text, or of two texts. Then their trees differ
in offsets, and nothing else: `Tree.Alike` says so of trees without faults of form, whose lists are
all closed. A lexeme that has no value, such as a number out of range, may occur in them, since it
can be passed over.

Offsets end up in errors only. So what a decoder makes of a tree, if it makes anything, it makes of
every tree like it.

Main statements: `Tree.Alike.decodes`, and `Tree.readEntries_append` on the members of one object
behind those of another.
-/

namespace RecordSchema

/-! ## Closed lists -/

/-- The items end in a closing bracket. -/
def Items.Closed : Items → Prop
  | .done gap => ∃ stop, gap = .closed stop
  | .item _ _ _ rest => rest.Closed

/-- The members end in a closing brace. -/
def Members.Closed : Members → Prop
  | .done gap => ∃ stop, gap = .closed stop
  | .notName _ => False
  | .nameOnly _ _ _ => False
  | .member _ _ _ _ rest => rest.Closed

/-- The members of an object with those of another one behind them, in place of their closing
brace. -/
def Members.append : Members → Members → Members
  | .done (.closed _), back => back
  | .done gap, _ => .done gap
  | .notName start, _ => .notName start
  | .nameOnly name settled next, _ => .nameOnly name settled next
  | .member name nameSettled value settled rest, back =>
    .member name nameSettled value settled (rest.append back)

/-! ## Alike -/

/-- The lexemes can be passed over, and have the same value if one of them has any. -/
structure Lexeme.Alike {α : Type} (lexeme lexeme' : Lexeme α) : Prop where
  value : AgreesWhen True lexeme.value lexeme'.value
  shape : lexeme.shape = .ok ()
  shape' : lexeme'.shape = .ok ()

mutual

/-- The trees differ in offsets only, and there is no fault of form in them. -/
inductive Tree.Alike : Tree → Tree → Prop
  | null {start start' stop stop' : Nat} :
      Tree.Alike (.null start (.good () stop)) (.null start' (.good () stop'))
  | boolean {start start' stop stop' : Nat} (b : Bool) :
      Tree.Alike (.boolean start (.good b stop)) (.boolean start' (.good b stop'))
  | number {start start' : Nat} {lexeme lexeme' : Lexeme Number} :
      lexeme.Alike lexeme' → Tree.Alike (.number start lexeme) (.number start' lexeme')
  | string {start start' : Nat} {lexeme lexeme' : Lexeme String} :
      lexeme.Alike lexeme' → Tree.Alike (.string start lexeme) (.string start' lexeme')
  | array {start start' : Nat} {items items' : Items} :
      Items.Alike items items' → Tree.Alike (.array start items) (.array start' items')
  | object {start start' : Nat} {members members' : Members} :
      Members.Alike members members' →
        Tree.Alike (.object start members) (.object start' members')

inductive Items.Alike : Items → Items → Prop
  | done {stop stop' : Nat} : Items.Alike (.done (.closed stop)) (.done (.closed stop'))
  | item {start start' settled settled' : Nat} {value value' : Tree} {rest rest' : Items} :
      Tree.Alike value value' → Items.Alike rest rest' →
        Items.Alike (.item start value settled rest) (.item start' value' settled' rest')

inductive Members.Alike : Members → Members → Prop
  | done {stop stop' : Nat} : Members.Alike (.done (.closed stop)) (.done (.closed stop'))
  | member {name name' : Lexeme String} {nameSettled nameSettled' settled settled' : Nat}
      {value value' : Tree} {rest rest' : Members} :
      name.Alike name' → Tree.Alike value value' → Members.Alike rest rest' →
        Members.Alike (.member name nameSettled value settled rest)
          (.member name' nameSettled' value' settled' rest')

end

theorem Members.Alike.closed : ∀ {members members' : Members}, members.Alike members' →
    members'.Closed
  | .done _, _, h => by
      cases h
      exact ⟨_, rfl⟩
  | .notName _, _, h => by cases h
  | .nameOnly _ _ _, _, h => by cases h
  | .member _ _ _ _ _, _, h => by
      cases h with
      | member _ _ hrest =>
          rw [Members.Closed]
          exact Members.Alike.closed hrest

/-- Where the closing brace is does not matter. -/
theorem Members.Alike.of_append_done {stop : Nat} : ∀ {members members' : Members},
    (members.append (.done (.closed stop))).Alike members' → members.Alike members'
  | .done (.closed _), _, h => by
      cases h
      exact .done
  | .done (.ended _), _, h => by cases h
  | .done (.endedAfterComma _), _, h => by cases h
  | .done (.closedAfterComma _), _, h => by cases h
  | .done (.junk _), _, h => by cases h
  | .notName _, _, h => by cases h
  | .nameOnly _ _ _, _, h => by cases h
  | .member _ _ _ _ _, _, h => by
      cases h with
      | member hname hvalue hrest => exact .member hname hvalue (Members.Alike.of_append_done hrest)

/-! ## Passing over -/

mutual

/-- Trees that are alike can be passed over. -/
theorem Tree.Alike.passOver : ∀ {tree tree' : Tree}, tree.Alike tree' →
    tree.passOver = .ok () ∧ tree'.passOver = .ok ()
  | .absent _, _, h => by cases h
  | .stray _, _, h => by cases h
  | .null _ _, _, h => by
      cases h
      exact ⟨rfl, rfl⟩
  | .boolean _ _, _, h => by
      cases h
      exact ⟨rfl, rfl⟩
  | .number _ _, _, h => by
      cases h with
      | number hlexeme => exact ⟨hlexeme.shape, hlexeme.shape'⟩
  | .string _ _, _, h => by
      cases h with
      | string hlexeme => exact ⟨hlexeme.shape, hlexeme.shape'⟩
  | .array _ items, _, h => by
      cases h with
      | array hitems => exact Items.Alike.passOver hitems
  | .object _ members, _, h => by
      cases h with
      | object hmembers => exact Members.Alike.passOver hmembers

theorem Items.Alike.passOver : ∀ {items items' : Items}, items.Alike items' →
    Tree.passOverItems items = .ok () ∧ Tree.passOverItems items' = .ok ()
  | .done _, _, h => by
      cases h
      exact ⟨rfl, rfl⟩
  | .item _ value _ rest, _, h => by
      cases h with
      | item hvalue hrest =>
          obtain ⟨hpass, hpass'⟩ := Tree.Alike.passOver hvalue
          obtain ⟨hrest, hrest'⟩ := Items.Alike.passOver hrest
          rw [Tree.passOverItems, Tree.passOverItems, hpass, hpass']
          exact ⟨hrest, hrest'⟩

theorem Members.Alike.passOver : ∀ {members members' : Members}, members.Alike members' →
    Tree.passOverMembers members = .ok () ∧ Tree.passOverMembers members' = .ok ()
  | .done _, _, h => by
      cases h
      exact ⟨rfl, rfl⟩
  | .notName _, _, h => by cases h
  | .nameOnly _ _ _, _, h => by cases h
  | .member name _ value _ rest, _, h => by
      cases h with
      | member hname hvalue hrest =>
          obtain ⟨hpass, hpass'⟩ := Tree.Alike.passOver hvalue
          obtain ⟨hrest, hrest'⟩ := Members.Alike.passOver hrest
          rw [Tree.passOverMembers, Tree.passOverMembers, hname.shape, hname.shape', hpass, hpass']
          exact ⟨hrest, hrest'⟩

end

/-! ## Values in their roles -/

namespace Tree.Alike

variable {tree tree' : Tree}

theorem asString (h : tree.Alike tree') : AgreesWhen True tree.asString tree'.asString := by
  cases h with
  | string hlexeme => exact hlexeme.value
  | number _ => exact .error _ _
  | _ => exact .error _ _

theorem asBool (h : tree.Alike tree') : AgreesWhen True tree.asBool tree'.asBool := by
  cases h with
  | boolean b => exact .ok b trivial
  | _ => exact .error _ _

theorem asUnit (h : tree.Alike tree') : AgreesWhen True tree.asUnit tree'.asUnit := by
  cases h with
  | null => exact .ok () trivial
  | _ => exact .error _ _

theorem asLength (h : tree.Alike tree') : AgreesWhen True tree.asLength tree'.asLength := by
  cases h with
  | @number _ _ lexeme lexeme' hlexeme =>
      have hbind : AgreesWhen True
          (lexeme.value >>= fun n => n.asLength.mapError fun error =>
            Fault.content error lexeme.stop)
          (lexeme'.value >>= fun n => n.asLength.mapError fun error =>
            Fault.content error lexeme'.stop) :=
        hlexeme.value.bind_of_true fun n =>
          ((AgreesWhen.refl trivial n.asLength).mapError _).mapError_value _
      rw [Tree.asLength, Tree.asLength]
      cases hvalue : lexeme.value <;> cases hvalue' : lexeme'.value <;>
        rw [hvalue, hvalue'] at hbind <;> exact hbind
  | _ => exact .error _ _

end Tree.Alike

section Choice

variable {α : Type} (ofName? : String → Option α) (choices : List String)

theorem Lexeme.Alike.choose {name name' : Lexeme String} (h : name.Alike name') :
    AgreesWhen True (Tree.choose ofName? choices name) (Tree.choose ofName? choices name') := by
  refine h.value.bind_of_true fun text => ?_
  cases ofName? text with
  | none => exact .error _ _
  | some x => exact .ok x trivial

/-- An object makes the same choice as one that is alike: with one name, or with none. -/
theorem Tree.Alike.asChoice {tree tree' : Tree} (h : tree.Alike tree') (depth : Nat) :
    AgreesWhen True (tree.asChoice ofName? choices depth)
      (tree'.asChoice ofName? choices depth) := by
  cases h with
  | null => exact .error _ _
  | boolean b => exact .error _ _
  | number _ => exact .error _ _
  | array _ => exact .error _ _
  | string hlexeme => exact hlexeme.choose ofName? choices
  | object hmembers =>
      rw [Tree.asChoice.eq_def, Tree.asChoice.eq_def]
      dsimp only
      by_cases hdepth : depth ≤ 1
      · rw [if_pos hdepth, if_pos hdepth]
        exact .error _ _
      · rw [if_neg hdepth, if_neg hdepth]
        cases hmembers with
        | done => exact .error _ _
        | member hname hvalue hrest =>
            refine (hname.choose ofName? choices).bind_of_true fun chosen =>
              hvalue.asUnit.bind_of_true fun _ => ?_
            cases hrest with
            | done => exact .ok chosen trivial
            | member _ _ _ => exact .error _ _

end Choice

theorem Items.Alike.asTransformItems (depth : Nat) : ∀ {items items' : Items},
    items.Alike items' →
      AgreesWhen True (Tree.asTransformItems depth items) (Tree.asTransformItems depth items')
  | .done _, _, h => by
      cases h
      exact .ok [] trivial
  | .item _ value _ rest, _, h => by
      cases h with
      | item hvalue hrest =>
          rw [Tree.asTransformItems, Tree.asTransformItems]
          exact (hvalue.asChoice _ _ depth).bind_of_true fun x =>
            (Items.Alike.asTransformItems depth hrest).bind_of_true fun xs => .ok (x :: xs) trivial

theorem Tree.Alike.asTransforms {tree tree' : Tree} (h : tree.Alike tree') (depth : Nat) :
    AgreesWhen True (tree.asTransforms depth) (tree'.asTransforms depth) := by
  cases h with
  | array hitems =>
      rw [Tree.asTransforms, Tree.asTransforms]
      by_cases hdepth : depth ≤ 1
      · rw [if_pos hdepth, if_pos hdepth]
        exact .error _ _
      · rw [if_neg hdepth, if_neg hdepth]
        exact hitems.asTransformItems (depth - 1)
  | _ => exact .error _ _

/-! ## Decoders of schemas -/

/-- The trees describe the same properties, and the same property. -/
structure Tree.DecodesAs (depth : Nat) (tree tree' : Tree) : Prop where
  properties : AgreesWhen True (tree.propertySet depth).outcome (tree'.propertySet depth).outcome
  spec : AgreesWhen True (tree.propertySpec depth).outcome (tree'.propertySpec depth).outcome

theorem Tree.Alike.fieldValue {depth : Nat} {tree tree' : Tree} (h : tree.Alike tree')
    (hdecodes : tree.DecodesAs depth tree') :
    FieldValue.Agrees (fun _ => True)
      (tree.fieldValue depth (fun _ => tree.propertySet depth) fun _ => tree.propertySpec depth)
      (tree'.fieldValue depth (fun _ => tree'.propertySet depth)
        fun _ => tree'.propertySpec depth) where
  text := h.asString
  flag := h.asBool
  length := h.asLength
  transforms := h.asTransforms depth
  null? := by
    cases h with
    | null => exact .inr ⟨rfl, rfl, fun _ => trivial⟩
    | _ => exact .inl ⟨rfl, rfl⟩
  properties := hdecodes.properties
  spec := hdecodes.spec
  plain := trivial

section

variable {depth : Nat}
  (hpart : ∀ {tree tree' : Tree}, tree.Alike tree' → tree.DecodesAs depth tree')

include hpart

theorem Items.Alike.fieldItems : ∀ {items items' : Items}, items.Alike items' →
    ∀ (position : Nat) (draft : SpecDraft),
      AgreesWhen True (Tree.fieldItems depth items position draft).outcome
        (Tree.fieldItems depth items' position draft).outcome
  | .done _, _, h, position, draft => by
      cases h
      rw [Tree.fieldItems, Tree.fieldItems]
      by_cases hposition : position < SpecField.all.length
      · rw [if_pos hposition, if_pos hposition]
        exact ((AgreesWhen.refl trivial _).mapError _).mapError_value _
      · rw [if_neg hposition, if_neg hposition]
        exact ((AgreesWhen.refl trivial _).mapError _).mapError_value _
  | .item _ value _ rest, _, h, position, draft => by
      cases h with
      | item hvalue hrest =>
          rw [Tree.fieldItems, Tree.fieldItems]
          cases SpecField.all[position]? with
          | none => exact .error _ _
          | some field =>
              have hread := SpecDraft.read_agrees (hvalue.fieldValue (hpart hvalue)) draft field
              exact ((hread.mapError _).mapError_value _).outcome_bind_of_true fun draft =>
                Items.Alike.fieldItems hrest (position + 1) draft

theorem Members.Alike.fieldMembers : ∀ {members members' : Members}, members.Alike members' →
    ∀ draft : SpecDraft, AgreesWhen True (Tree.fieldMembers depth members draft).outcome
      (Tree.fieldMembers depth members' draft).outcome
  | .done _, _, h, draft => by
      cases h
      rw [Tree.fieldMembers, Tree.fieldMembers]
      exact ((AgreesWhen.refl trivial _).mapError _).mapError_value _
  | .notName _, _, h, _ => by cases h
  | .nameOnly _ _ _, _, h, _ => by cases h
  | .member name _ value _ rest, _, h, draft => by
      cases h with
      | @member _ name' _ _ _ _ _ value' _ rest' hname hvalue hrest =>
          have htail (draft : SpecDraft) := Members.Alike.fieldMembers hrest draft
          have hname' : AgreesWhen True (Logged.ofExcept name.value).outcome
              (Logged.ofExcept name'.value).outcome := hname.value
          rw [Tree.fieldMembers, Tree.fieldMembers]
          refine hname'.outcome_bind_of_true fun key => ?_
          cases SpecField.ofName? key with
          | none =>
              dsimp only
              rw [hvalue.passOver.1, hvalue.passOver.2, Logged.ofExcept_ok_bind,
                Logged.ofExcept_ok_bind]
              exact htail draft
          | some field =>
              dsimp only
              by_cases hhas : draft.has field
              · rw [if_pos hhas, if_pos hhas]
                exact .error _ _
              · rw [if_neg hhas, if_neg hhas]
                have hread := SpecDraft.read_agrees (hvalue.fieldValue (hpart hvalue)) draft field
                exact ((hread.mapError _).mapError_value _).outcome_bind_of_true htail

end

/-- Entries are read in the same way if the values under the names are. -/
theorem Members.Alike.readEntries {α : Type} {kind : EntryKind}
    {decode : Nat → Tree → Logged Fault α} {depth : Nat}
    (hpart : ∀ {tree tree' : Tree}, tree.Alike tree' →
      AgreesWhen True (decode depth tree).outcome (decode depth tree').outcome) :
    ∀ {members members' : Members}, members.Alike members' → ∀ front : Entries α,
      AgreesWhen True (Tree.readEntries kind decode depth members front).outcome
        (Tree.readEntries kind decode depth members' front).outcome
  | .done _, _, h, front => by
      cases h
      exact .ok front trivial
  | .notName _, _, h, _ => by cases h
  | .nameOnly _ _ _, _, h, _ => by cases h
  | .member name _ value _ rest, _, h, front => by
      cases h with
      | @member _ name' _ _ _ _ _ value' _ rest' hname hvalue hrest =>
          have hname' : AgreesWhen True (Logged.ofExcept name.value).outcome
              (Logged.ofExcept name'.value).outcome := hname.value
          rw [Tree.readEntries, Tree.readEntries]
          refine hname'.outcome_bind_of_true fun key => ?_
          by_cases hhas : front.has key
          · rw [if_pos hhas, if_pos hhas]
            exact .error _ _
          · rw [if_neg hhas, if_neg hhas]
            exact (((hpart hvalue).mapError _).mapError_value _).outcome_bind_of_true fun x =>
              Members.Alike.readEntries hpart hrest _

/-- Trees that are alike describe the same. -/
theorem Tree.Alike.decodes {tree tree' : Tree} (h : tree.Alike tree') (depth : Nat) :
    tree.DecodesAs depth tree' := by
  -- the parts of a tree are read with less depth, whatever their size
  induction depth generalizing tree tree' with
  | zero =>
      cases h with
      | number _ => exact ⟨.error _ _, .error _ _⟩
      | _ => exact ⟨.error _ _, .error _ _⟩
  | succ depth ih =>
      cases h with
      | null => exact ⟨.error _ _, .error _ _⟩
      | boolean b => exact ⟨.error _ _, .error _ _⟩
      | number _ => exact ⟨.error _ _, .error _ _⟩
      | string _ => exact ⟨.error _ _, .error _ _⟩
      | array hitems =>
          refine ⟨.error _ _, ?_⟩
          rw [propertySpec, propertySpec]
          by_cases hdepth : depth + 1 ≤ 1
          · rw [if_pos hdepth, if_pos hdepth]
            exact .error _ _
          · rw [if_neg hdepth, if_neg hdepth]
            exact (hitems.fieldItems ih 0 .empty).outcome_bind_of_true fun fields =>
              AgreesWhen.refl trivial _
      | object hmembers =>
          constructor
          · rw [propertySet, propertySet, propertyMembers_eq, propertyMembers_eq]
            by_cases hdepth : depth + 1 ≤ 1
            · rw [if_pos hdepth, if_pos hdepth]
              exact .error _ _
            · rw [if_neg hdepth, if_neg hdepth]
              exact hmembers.readEntries (fun hvalue => (ih hvalue).spec) []
          · rw [propertySpec, propertySpec]
            by_cases hdepth : depth + 1 ≤ 1
            · rw [if_pos hdepth, if_pos hdepth]
              exact .error _ _
            · rw [if_neg hdepth, if_neg hdepth]
              exact (hmembers.fieldMembers ih .empty).outcome_bind_of_true fun fields =>
                AgreesWhen.refl trivial _

theorem Members.Alike.typeMembers {members members' : Members} (h : members.Alike members')
    (depth : Nat) (front : Schema) :
    AgreesWhen True (Tree.typeMembers depth members front).outcome
      (Tree.typeMembers depth members' front).outcome := by
  rw [Tree.typeMembers_eq, Tree.typeMembers_eq]
  exact h.readEntries (fun hvalue => (hvalue.decodes depth).properties) front

/-! ## Members behind others -/

section

variable {α : Type} {kind : EntryKind} {decode : Nat → Tree → Logged Fault α} {depth : Nat}

namespace Tree

theorem readEntries_done_eq_ok_iff {gap : Gap} {front all : Entries α} :
    (readEntries kind decode depth (.done gap) front).outcome = .ok all ↔
      (∃ stop, gap = .closed stop) ∧ front = all := by
  cases gap <;> simp [readEntries, Gap.memberFault?, Logged.fail, Logged.ok]

theorem readEntries_member_eq_ok_iff {name : Lexeme String} {nameSettled settled : Nat}
    {value : Tree} {rest : Members} {front all : Entries α} :
    (readEntries kind decode depth (.member name nameSettled value settled rest) front).outcome =
        .ok all ↔
      ∃ key x, name.value = .ok key ∧ key ∉ front.names ∧ (decode depth value).outcome = .ok x ∧
        (readEntries kind decode depth rest (front ++ [(key, x)])).outcome = .ok all := by
  rw [readEntries, Logged.bind_def, Logged.outcome_bind]
  constructor
  · intro h
    obtain ⟨key, hkey, h⟩ := Except.bind_eq_ok_iff.mp h
    by_cases hhas : front.has key
    · rw [if_pos hhas] at h
      cases h
    · rw [if_neg hhas, Logged.bind_def, Logged.outcome_bind] at h
      obtain ⟨x, hx, h⟩ := Except.bind_eq_ok_iff.mp h
      exact ⟨key, x, hkey, mt Entries.has_iff_mem_names.mpr hhas, Except.mapError_eq_ok_iff.mp hx,
        h⟩
  · rintro ⟨key, x, hkey, hfresh, hx, h⟩
    refine Except.bind_eq_ok_iff.mpr ⟨key, hkey, ?_⟩
    rw [if_neg (mt Entries.has_iff_mem_names.mp hfresh), Logged.bind_def, Logged.outcome_bind]
    exact Except.bind_eq_ok_iff.mpr ⟨x, Except.mapError_eq_ok_iff.mpr hx, h⟩

/-- Members that are read are closed. -/
theorem closed_of_readEntries : ∀ {members : Members} {front all : Entries α},
    (readEntries kind decode depth members front).outcome = .ok all → members.Closed
  | .done _, _, _, h => (readEntries_done_eq_ok_iff.mp h).1
  | .notName _, _, _, h => by rw [readEntries] at h; cases h
  | .nameOnly name _ _, front, _, h => by
      rw [readEntries, Logged.bind_def, Logged.outcome_bind] at h
      obtain ⟨key, _, h⟩ := Except.bind_eq_ok_iff.mp h
      split at h <;> cases h
  | .member _ _ _ _ _, _, _, h => by
      obtain ⟨_, _, _, _, _, h⟩ := readEntries_member_eq_ok_iff.mp h
      rw [Members.Closed]
      exact closed_of_readEntries h

/-- What is read is put behind what is there, under new names. -/
theorem exists_of_readEntries : ∀ {members : Members} {front all : Entries α},
    front.names.Nodup → (readEntries kind decode depth members front).outcome = .ok all →
      ∃ entries, all = front ++ entries ∧ all.names.Nodup
  | .done _, front, all, hnodup, h => by
      obtain ⟨-, rfl⟩ := readEntries_done_eq_ok_iff.mp h
      exact ⟨[], (List.append_nil front).symm, hnodup⟩
  | .notName _, _, _, _, h => by rw [readEntries] at h; cases h
  | .nameOnly _ _ _, _, _, _, h => (closed_of_readEntries h).elim
  | .member _ _ _ _ _, front, _, hnodup, h => by
      obtain ⟨key, x, _, hfresh, _, h⟩ := readEntries_member_eq_ok_iff.mp h
      have hnodup' : Entries.names (front ++ [(key, x)]) |>.Nodup := by
        rw [Entries.names_append]
        exact hnodup.append (List.nodup_singleton key) (List.disjoint_singleton.mpr hfresh)
      obtain ⟨entries, rfl, hall⟩ := exists_of_readEntries hnodup' h
      exact ⟨(key, x) :: entries, List.append_cons front (key, x) entries ▸ rfl, hall⟩

/-- Entries that are read behind some are read behind more of them, if no name is taken. -/
theorem readEntries_behind : ∀ {members : Members} {front middle entries : Entries α},
    (readEntries kind decode depth members middle).outcome = .ok (middle ++ entries) →
    middle.names.Nodup → (∀ name ∈ entries.names, name ∉ front.names) →
      (readEntries kind decode depth members (front ++ middle)).outcome =
        .ok (front ++ middle ++ entries)
  | .done _, front, middle, entries, h, _, _ => by
      obtain ⟨hgap, hentries⟩ := readEntries_done_eq_ok_iff.mp h
      rw [List.append_assoc, ← hentries]
      exact readEntries_done_eq_ok_iff.mpr ⟨hgap, rfl⟩
  | .notName _, _, _, _, h, _, _ => by rw [readEntries] at h; cases h
  | .nameOnly _ _ _, _, _, _, h, _, _ => (closed_of_readEntries h).elim
  | .member _ _ _ _ _, front, middle, entries, h, hnodup, hdisjoint => by
      obtain ⟨key, x, hkey, hfresh, hx, h⟩ := readEntries_member_eq_ok_iff.mp h
      have hnodup' : Entries.names (middle ++ [(key, x)]) |>.Nodup := by
        rw [Entries.names_append]
        exact hnodup.append (List.nodup_singleton key) (List.disjoint_singleton.mpr hfresh)
      obtain ⟨others, hall, -⟩ := exists_of_readEntries hnodup' h
      have hentries : entries = (key, x) :: others := by
        rw [List.append_assoc, List.append_cancel_left_eq] at hall
        exact hall
      subst hentries
      have hkeyfront : key ∉ front.names := hdisjoint key List.mem_cons_self
      refine readEntries_member_eq_ok_iff.mpr ⟨key, x, hkey, ?_, hx, ?_⟩
      · rw [Entries.names_append, List.mem_append, not_or]
        exact ⟨hkeyfront, hfresh⟩
      · rw [hall] at h
        have hothers : ∀ name ∈ Entries.names others, name ∉ front.names :=
          fun name hname => hdisjoint name (List.mem_cons_of_mem _ hname)
        have hbehind := readEntries_behind h hnodup' hothers
        simpa only [List.append_assoc, List.cons_append, List.nil_append] using hbehind

/-- The members of an object are read behind those in front of them. -/
theorem readEntries_append : ∀ {members back : Members} {front middle all : Entries α},
    (readEntries kind decode depth members front).outcome = .ok middle →
    (readEntries kind decode depth back middle).outcome = .ok all →
      (readEntries kind decode depth (members.append back) front).outcome = .ok all
  | .done _, _, _, _, _, h, hback => by
      obtain ⟨⟨stop, rfl⟩, rfl⟩ := readEntries_done_eq_ok_iff.mp h
      exact hback
  | .notName _, _, _, _, _, h, _ => by rw [readEntries] at h; cases h
  | .nameOnly _ _ _, _, _, _, _, h, _ => (closed_of_readEntries h).elim
  | .member _ _ _ _ _, _, _, _, _, h, hback => by
      obtain ⟨key, x, hkey, hfresh, hx, h⟩ := readEntries_member_eq_ok_iff.mp h
      exact readEntries_member_eq_ok_iff.mpr
        ⟨key, x, hkey, hfresh, hx, readEntries_append h hback⟩

end Tree

end

end RecordSchema
