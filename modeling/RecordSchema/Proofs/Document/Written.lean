import RecordSchema.Proofs.Document.Role
import RecordSchema.Proofs.Document.Routes

/-!
# Schemas as they are written

`Tree.written` is the value of a tree as it is written: an object has all its members, with their
repetitions, and a part of the text that is at fault has a value that stands in for it. It is no
value that a text spells, but what the decoders of values do on it is what the decoders of texts
do on the tree, as far as they come to a result: `Logged.MatchedBy`, for the result and for the
events. So what holds of every value that is read holds of every text.

Main statement: `Schema.ofText_matchedBy`, and the same for properties and sets of them.
-/

namespace RecordSchema

/-! ## Results that are matched -/

namespace Logged

variable {ε ε' δ δ' α β : Type}

/-- Where the first computation comes to a result, the second comes to the same, and reports the
same events. -/
def MatchedBy (first : Logged ε α) (second : Logged δ α) : Prop :=
  ∀ x, first.outcome = .ok x → second = ⟨first.events, .ok x⟩

variable {first : Logged ε α} {second : Logged δ α}

theorem MatchedBy.outcome_eq (h : first.MatchedBy second) {x : α} (hx : first.outcome = .ok x) :
    second.outcome = .ok x :=
  congrArg Logged.outcome (h x hx)

theorem matchedBy_ok (x : α) : (ok x : Logged ε α).MatchedBy (ok x : Logged δ α) := by
  rintro _ ⟨⟩
  rfl

theorem matchedBy_of_fail (error : ε) : (fail error : Logged ε α).MatchedBy second := by
  rintro _ ⟨⟩

theorem matchedBy_ofExcept {outcome : Except ε α} {outcome' : Except δ α}
    (h : ∀ x, outcome = .ok x → outcome' = .ok x) :
    (ofExcept outcome).MatchedBy (ofExcept outcome') := by
  intro x hx
  rw [ofExcept, h x hx]
  rfl

theorem MatchedBy.bind {next : α → Logged ε β} {next' : α → Logged δ β}
    (h : first.MatchedBy second) (hnext : ∀ x, (next x).MatchedBy (next' x)) :
    (first.bind next).MatchedBy (second.bind next') := by
  intro y hy
  rw [outcome_bind] at hy
  obtain ⟨x, hx, hy⟩ := Except.bind_eq_ok_iff.mp hy
  rw [h x hx, Logged.bind, Logged.bind, hx]
  dsimp only
  rw [hnext x y hy]

/-- A step without events may come first on one side only. -/
theorem matchedBy_ofExcept_bind {outcome : Except ε β} {next : β → Logged ε α}
    (h : ∀ x, outcome = .ok x → (next x).MatchedBy second) :
    ((ofExcept outcome).bind next).MatchedBy second := by
  cases outcome with
  | error error => exact matchedBy_of_fail error
  | ok x => exact ok_bind x next ▸ h x rfl

/-- A step without events may come last on one side only, if it keeps the result. -/
theorem MatchedBy.bind_ofExcept (h : first.MatchedBy second) (check : Except ε β) :
    (first.bind fun x => (ofExcept check).bind fun _ => ok x).MatchedBy second := by
  intro x hx
  rw [outcome_bind] at hx
  obtain ⟨y, hy, hx⟩ := Except.bind_eq_ok_iff.mp hx
  rw [outcome_bind] at hx
  obtain ⟨z, hz, ⟨⟩⟩ := Except.bind_eq_ok_iff.mp hx
  obtain rfl : check = .ok z := hz
  rw [h x hy, Logged.bind, hy]
  exact congrArg (fun events => (⟨events, .ok x⟩ : Logged δ α)) (List.append_nil _).symm

theorem MatchedBy.mapError (h : first.MatchedBy second) (f : ε → ε') :
    (first.mapError f).MatchedBy second :=
  fun x hx => h x (Except.mapError_eq_ok_iff.mp hx)

theorem MatchedBy.mapError_second (h : first.MatchedBy second) (f : δ → δ') :
    first.MatchedBy (second.mapError f) := by
  intro x hx
  rw [h x hx]
  rfl

end Logged

open Logged

/-! ## Values as they are written -/

/-- What stands in for a part of a text that is at fault. It is not null, which some decoders
take for a part that is not there. -/
def Json.standIn : Json :=
  .boolean false

/-- The value of a lexeme. -/
def Lexeme.written {α : Type} (lexeme : Lexeme α) (value : α → Json) : Json :=
  match lexeme.value with
  | .ok x => value x
  | .error _ => .standIn

mutual

/-- The value of a tree, as it is written. -/
def Tree.written : Tree → Json
  | .absent _ => .standIn
  | .stray _ => .standIn
  | .null _ _ => .null
  | .boolean _ lexeme => lexeme.written .boolean
  | .number _ lexeme => lexeme.written .number
  | .string _ lexeme => lexeme.written .string
  | .array _ items => .array items.written
  | .object _ members => .object members.written

/-- The values of the items of an array. -/
def Items.written : Items → List Json
  | .done _ => []
  | .item _ value _ rest => value.written :: rest.written

/-- The members of an object with their values, repetitions included. -/
def Members.written : Members → List (String × Json)
  | .done _ => []
  | .notName _ => []
  | .nameOnly _ _ _ => []
  | .member name _ value _ rest =>
    match name.value with
    | .ok key => (key, value.written) :: rest.written
    | .error _ => rest.written

end

/-- The value of a document, as it is written. -/
def Document.written (document : Document) : Json :=
  document.root.written

theorem Lexeme.written_of_ok {α : Type} {lexeme : Lexeme α} {x : α} (h : lexeme.value = .ok x)
    (value : α → Json) : lexeme.written value = value x := by
  rw [written, h]

theorem Members.written_member {name : Lexeme String} {key : String} (h : name.value = .ok key)
    (nameSettled : Nat) (value : Tree) (settled : Nat) (rest : Members) :
    (member name nameSettled value settled rest).written =
      (key, value.written) :: rest.written := by
  rw [Members.written, h]

namespace Tree

/-- Only null is written as null. -/
theorem null_of_written {tree : Tree} (h : tree.written = .null) :
    ∃ start lexeme, tree = .null start lexeme := by
  cases tree with
  | null start lexeme => exact ⟨start, lexeme, rfl⟩
  | boolean _ lexeme | number _ lexeme | string _ lexeme =>
      rw [written, Lexeme.written] at h
      split at h <;> cases h
  | absent _ | stray _ | array _ _ | object _ _ =>
      rw [written] at h
      cases h

/-! ## Values of fields -/

theorem asString_written {tree : Tree} {text : String} (h : tree.asString = .ok text) :
    tree.written.asString = .ok text := by
  cases tree with
  | string _ lexeme =>
      rw [written, Lexeme.written_of_ok h]
      rfl
  | _ => cases h

theorem asBool_written {tree : Tree} {flag : Bool} (h : tree.asBool = .ok flag) :
    tree.written.asBool = .ok flag := by
  cases tree with
  | boolean _ lexeme =>
      rw [written, Lexeme.written_of_ok h]
      rfl
  | _ => cases h

theorem asLength_written {tree : Tree} {length : UInt64} (h : tree.asLength = .ok length) :
    tree.written.asLength = .ok length := by
  cases tree with
  | number _ lexeme =>
      rw [asLength] at h
      cases hvalue : lexeme.value with
      | error fault =>
          rw [hvalue] at h
          cases h
      | ok n =>
          rw [hvalue] at h
          rw [written, Lexeme.written_of_ok hvalue]
          exact Except.mapError_eq_ok_iff.mp h
  | _ => cases h

theorem asUnit_written {tree : Tree} (h : tree.asUnit = .ok ()) :
    tree.written.asUnit = .ok () := by
  cases tree with
  | null _ _ => rw [written, Json.asUnit]
  | _ => cases h

/-- A name that is chosen in the text is chosen in its value. -/
theorem exists_of_choose {name : Lexeme String} {transform : Transform}
    (h : choose Transform.ofName? Transform.names name = .ok transform) :
    ∃ key, name.value = .ok key ∧
      Json.choose Transform.ofName? Transform.names key = .ok transform := by
  obtain ⟨key, hname, h⟩ := Except.bind_eq_ok_iff.mp h
  refine ⟨key, hname, ?_⟩
  rw [Json.choose]
  cases hkey : Transform.ofName? key with
  | none =>
      rw [hkey] at h
      cases h
  | some chosen =>
      rw [hkey] at h
      cases h
      rfl

theorem asChoice_written {depth : Nat} {tree : Tree} {transform : Transform}
    (h : tree.asChoice Transform.ofName? Transform.names depth = .ok transform) :
    tree.written.asChoice Transform.ofName? Transform.names = .ok transform := by
  cases tree with
  | string _ lexeme =>
      obtain ⟨key, hname, hchosen⟩ := exists_of_choose h
      rw [written, Lexeme.written_of_ok hname, Json.asChoice]
      exact hchosen
  | object start members =>
      rw [asChoice.eq_def] at h
      dsimp only at h
      split at h
      · cases h
      cases members with
      | done gap => cases gap <;> cases h
      | notName _ => cases h
      | nameOnly _ _ _ =>
          obtain ⟨_, _, ⟨⟩⟩ := Except.bind_eq_ok_iff.mp h
      | member name _ value _ rest =>
          obtain ⟨chosen, hchosen, h⟩ := Except.bind_eq_ok_iff.mp h
          obtain ⟨⟨⟩, hunit, h⟩ := Except.bind_eq_ok_iff.mp h
          obtain ⟨key, hname, hchosen⟩ := exists_of_choose hchosen
          -- nothing but the closing bracket may come behind the one member
          split at h
          · cases h
            rw [written, Members.written_member hname, Members.written, Json.asChoice, hchosen]
            change (value.written.asUnit >>= fun _ => .ok transform) = _
            rw [asUnit_written hunit]
            rfl
          · cases h
          · cases h
  | _ => cases h

theorem asTransformItems_written {depth : Nat} : ∀ {items : Items} {transforms : List Transform},
    asTransformItems depth items = .ok transforms →
      List.Forall₂ (fun value transform =>
        value.asChoice Transform.ofName? Transform.names = .ok transform) items.written transforms
  | .done gap, transforms, h => by
      rw [asTransformItems] at h
      split at h
      · cases h
      · cases h
        rw [Items.written]
        exact .nil
  | .item _ value _ rest, transforms, h => by
      rw [asTransformItems] at h
      obtain ⟨first, hfirst, h⟩ := Except.bind_eq_ok_iff.mp h
      obtain ⟨others, hothers, ⟨⟩⟩ := Except.bind_eq_ok_iff.mp h
      rw [Items.written]
      exact .cons (asChoice_written hfirst) (asTransformItems_written hothers)

theorem asTransforms_written {depth : Nat} {tree : Tree} {transforms : List Transform}
    (h : tree.asTransforms depth = .ok transforms) :
    tree.written.asTransforms = .ok transforms := by
  cases tree with
  | array start items =>
      rw [asTransforms] at h
      split at h
      · cases h
      · rw [written, Json.asTransforms, Except.mapM_eq_ok_iff]
        exact asTransformItems_written h
  | _ => cases h

/-- A tree is read as a property, or as a set of properties, as it is written. -/
structure Matched (depth : Nat) (tree : Tree) : Prop where
  set : (tree.propertySet depth).MatchedBy tree.written.propertySet
  spec : (tree.propertySpec depth).MatchedBy tree.written.propertySpec

/-- What a tree says in the roles of the fields. -/
def asField (depth : Nat) (tree : Tree) : FieldValue Fault :=
  tree.fieldValue depth (fun _ => tree.propertySet depth) fun _ => tree.propertySpec depth

/-- A role that null may take is matched if the role without null is. -/
theorem orNull_matchedBy {α : Type} {depth : Nat} {tree : Tree} (read : Unit → Logged Fault α)
    (read' : Unit → Logged ContentError α) (h : (read ()).MatchedBy (read' ())) :
    ((tree.asField depth).orNull read).MatchedBy (tree.written.asField.orNull read') := by
  have hread : ((read ()).bind fun x => ok (some x)).MatchedBy
      ((read' ()).bind fun x => ok (some x)) := h.bind fun x => matchedBy_ok (some x)
  by_cases hnull : tree.written = .null
  · obtain ⟨start, lexeme, rfl⟩ := null_of_written hnull
    rw [hnull]
    refine matchedBy_ofExcept fun x hx => ?_
    obtain ⟨⟨⟩, -, rfl⟩ := Except.map_eq_ok_iff.mp hx
    rfl
  · have htext : (tree.asField depth).null? = none := by
      cases tree with
      | null _ _ => exact absurd rfl hnull
      | _ => rfl
    have hvalue : tree.written.asField.null? = none := by
      cases hwritten : tree.written with
      | null => exact absurd hwritten hnull
      | _ => rfl
    rw [FieldValue.orNull, FieldValue.orNull, htext, hvalue]
    exact hread

theorem Matched.role {depth : Nat} {tree : Tree} (h : tree.Matched depth) (field : SpecField) :
    ((tree.asField depth).role field).MatchedBy (tree.written.asField.role field) := by
  have htext : (ofExcept tree.asString).MatchedBy (ofExcept tree.written.asString) :=
    matchedBy_ofExcept fun _ => asString_written
  have hflag : (ofExcept tree.asBool).MatchedBy (ofExcept tree.written.asBool) :=
    matchedBy_ofExcept fun _ => asBool_written
  have hlength : (ofExcept tree.asLength).MatchedBy (ofExcept tree.written.asLength) :=
    matchedBy_ofExcept fun _ => asLength_written
  cases field with
  | type => exact htext
  | required => exact hflag
  | minLength => exact orNull_matchedBy (fun _ => ofExcept _) (fun _ => ofExcept _) hlength
  | isInteger => exact orNull_matchedBy (fun _ => ofExcept _) (fun _ => ofExcept _) hflag
  | startsWith => exact orNull_matchedBy (fun _ => ofExcept _) (fun _ => ofExcept _) htext
  | properties => exact orNull_matchedBy _ _ h.set
  | items => exact orNull_matchedBy _ _ h.spec
  | transform => exact matchedBy_ofExcept fun _ => asTransforms_written

theorem Matched.read {depth : Nat} {tree : Tree} (h : tree.Matched depth) (draft : SpecDraft)
    (field : SpecField) :
    (draft.read (tree.asField depth) field).MatchedBy (draft.read tree.written.asField field) := by
  rw [SpecDraft.read_eq, SpecDraft.read_eq]
  exact (h.role field).bind fun meaning => matchedBy_ok (draft.set field meaning)

/-! ## Parts of a document -/

section

variable {depth : Nat} (hpart : ∀ tree : Tree, tree.Matched depth)

include hpart

theorem fieldItems_matchedBy (length : Nat) : ∀ (items : Items) (position : Nat)
    (draft : SpecDraft), (fieldItems depth items position draft).MatchedBy
      (Json.fieldElements length items.written position draft)
  | .done gap, position, draft => by
      rw [fieldItems, Items.written, Json.fieldElements]
      split
      · split
        · exact matchedBy_of_fail _
        · exact matchedBy_ofExcept fun _ => Except.mapError_eq_ok_iff.mp
      · split
        · exact matchedBy_of_fail _
        · exact matchedBy_ofExcept fun _ => Except.mapError_eq_ok_iff.mp
  | .item _ value _ rest, position, draft => by
      rw [fieldItems, Items.written, Json.fieldElements]
      cases SpecField.all[position]? with
      | none => exact matchedBy_of_fail _
      | some field =>
          exact (((hpart value).read draft field).mapError _).bind fun draft =>
            fieldItems_matchedBy length rest (position + 1) draft

theorem fieldMembers_matchedBy : ∀ (members : Members) (draft : SpecDraft),
    (fieldMembers depth members draft).MatchedBy (Json.fieldMembers members.written draft)
  | .done gap, draft => by
      rw [fieldMembers, Members.written, Json.fieldMembers]
      split
      · exact matchedBy_of_fail _
      · exact matchedBy_ofExcept fun _ => Except.mapError_eq_ok_iff.mp
  | .notName _, _ => by
      rw [fieldMembers]
      exact matchedBy_of_fail _
  | .nameOnly _ _ _, draft => by
      rw [fieldMembers]
      refine matchedBy_ofExcept_bind fun key _ => ?_
      split
      · split <;> exact matchedBy_of_fail _
      · exact matchedBy_of_fail _
  | .member name _ value _ rest, draft => by
      rw [fieldMembers]
      refine matchedBy_ofExcept_bind fun key hname => ?_
      rw [Members.written_member hname, Json.fieldMembers]
      cases SpecField.ofName? key with
      | none => exact matchedBy_ofExcept_bind fun _ _ => fieldMembers_matchedBy rest draft
      | some field =>
          dsimp only
          split
          · exact matchedBy_of_fail _
          · exact (((hpart value).read draft field).mapError _).bind fun draft =>
              fieldMembers_matchedBy rest draft

end

theorem readEntries_matchedBy {α : Type} {kind : EntryKind} {depth : Nat}
    {decode : Nat → Tree → Logged Fault α} {decode' : Json → Logged ContentError α}
    (hpart : ∀ tree, (decode depth tree).MatchedBy (decode' tree.written)) :
    ∀ (members : Members) (front : Entries α),
      (readEntries kind decode depth members front).MatchedBy
        (Json.readEntries kind decode' members.written front)
  | .done gap, front => by
      rw [readEntries, Members.written, Json.readEntries]
      split
      · exact matchedBy_of_fail _
      · exact matchedBy_ok front
  | .notName _, _ => by
      rw [readEntries]
      exact matchedBy_of_fail _
  | .nameOnly _ _ _, _ => by
      rw [readEntries]
      refine matchedBy_ofExcept_bind fun key _ => ?_
      split <;> exact matchedBy_of_fail _
  | .member name _ value _ rest, front => by
      rw [readEntries]
      refine matchedBy_ofExcept_bind fun key hname => ?_
      rw [Members.written_member hname, Json.readEntries]
      split
      · exact matchedBy_of_fail _
      · exact ((hpart value).mapError _).bind fun x => readEntries_matchedBy hpart rest _

theorem matched (depth : Nat) (tree : Tree) : tree.Matched depth := by
  -- the parts of a tree are read with less depth, whatever their size
  induction depth generalizing tree with
  | zero => cases tree <;> exact ⟨matchedBy_of_fail _, matchedBy_of_fail _⟩
  | succ depth ih =>
      cases tree with
      | array start items =>
          refine ⟨matchedBy_of_fail _, ?_⟩
          rw [propertySpec, written, Json.propertySpec]
          split
          · exact matchedBy_of_fail _
          · refine (fieldItems_matchedBy ih _ items 0 .empty).bind fun fields => ?_
            exact Logged.MatchedBy.mapError (fun _ h => by rw [← h]) _
      | object start members =>
          constructor
          · rw [propertySet, written, Json.propertySet, propertyMembers_eq,
              Json.propertyMembers_eq]
            split
            · exact matchedBy_of_fail _
            · exact readEntries_matchedBy (fun tree => (ih tree).spec) members []
          · rw [propertySpec, written, Json.propertySpec]
            split
            · exact matchedBy_of_fail _
            · refine (fieldMembers_matchedBy ih members .empty).bind fun fields => ?_
              exact Logged.MatchedBy.mapError (fun _ h => by rw [← h]) _
      | _ => exact ⟨matchedBy_of_fail _, matchedBy_of_fail _⟩

theorem schema_matchedBy (depth : Nat) (tree : Tree) :
    (tree.schema depth).MatchedBy tree.written.schema := by
  cases tree with
  | object start members =>
      rw [schema, written, Json.schema, typeMembers_eq, Json.typeMembers_eq]
      split
      · exact matchedBy_of_fail _
      · refine (readEntries_matchedBy (fun tree => (matched _ tree).set) members []).bind
          fun types => ?_
        split
        · exact matchedBy_of_fail _
        · exact matchedBy_ok types
  | _ => exact matchedBy_of_fail _

end Tree

/-! ## Texts -/

/-- What is read from a text is read from the value of the text as it is written. -/
theorem decodeText_matchedBy {α : Type} {decode : Nat → Tree → Logged Fault α}
    {decode' : Json → Logged ContentError α}
    (h : ∀ tree, (decode depthLimit tree).MatchedBy (decode' tree.written)) (text : String) :
    (decodeText decode text).MatchedBy (decode' (Document.ofText text).written) :=
  ((h (Document.ofText text).root).bind_ofExcept _).mapError _

theorem PropertySpec.ofText_matchedBy (text : String) :
    (PropertySpec.ofText text).MatchedBy (Document.ofText text).written.propertySpec :=
  decodeText_matchedBy (fun tree => (tree.matched _).spec) text

theorem PropertySet.ofText_matchedBy (text : String) :
    (PropertySet.ofText text).MatchedBy (Document.ofText text).written.propertySet :=
  decodeText_matchedBy (fun tree => (tree.matched _).set) text

/-- What is read as a schema from a text is read from the value of the text as it is written, with
the same events. -/
theorem Schema.ofText_matchedBy (text : String) :
    (Schema.ofText text).MatchedBy (Schema.ofValue (Document.ofText text).written) :=
  ((decodeText_matchedBy (fun tree => tree.schema_matchedBy _) text).mapError _).mapError_second _

end RecordSchema
