import RecordSchema.Document.Record
import RecordSchema.Proofs.Document.Agreement
import RecordSchema.Proofs.Document.Members

/-!
# Two routes to a schema

A schema can be read from a text, or from the record that the text spells. A tree and the
value that it spells are compared in two steps. First the members of an object are
compared with their values, repetitions included: both decoders refuse a repeated
declaration, and go on in the same way with everything else. Then the values with their
repetitions are compared with what `Entries.putAll` leaves of them: they are read in the
same way if no declaration is repeated, and are not read at all otherwise.

Main statements: the two routes agree up to repetitions, `Schema.ofText_agrees`, and in
which way they differ there, `Schema.ofText_iff_ofValue`.
-/

namespace RecordSchema

/-! ## Values without their repetitions -/

namespace Json

theorem readEntries_putAll {α : Type} (kind : EntryKind) (decode : Json → Logged ContentError α)
    (entries : Entries Json) :
    AgreesWhen entries.names.Nodup (readEntries kind decode entries []).outcome
      (readEntries kind decode (Entries.putAll [] entries) []).outcome := by
  apply AgreesWhen.of_eq
  · exact fun _ h => nodup_of_readEntries (by simp) h
  · intro hnodup
    rw [Entries.putAll_of_nodup (by simpa using hnodup), List.nil_append]

theorem fieldMembers_putAll (entries : Entries Json) :
    AgreesWhen (entries.names.filter Place.spec.declares).Nodup
      (fieldMembers entries .empty).outcome
      (fieldMembers (Entries.putAll [] entries) .empty).outcome := by
  apply AgreesWhen.of_eq
  · exact fun _ h => (lacks_of_fieldMembers h).nodup
  · intro hnodup
    rw [← fieldMembers_filter entries, ← fieldMembers_filter (Entries.putAll [] entries),
      Entries.filter_putAll_of_nodup hnodup]

end Json

/-! ## Texts -/

namespace Tree

/-- The named things that the members of an object describe, behind those before them:
what `propertyMembers` and `typeMembers` have in common. -/
def readEntries {α : Type} (kind : EntryKind) (decode : Nat → Tree → Logged Fault α)
    (depth : Nat) : Members → Entries α → Logged Fault (Entries α)
  | .done gap, front =>
    match gap.memberFault? with
    | some fault => Logged.fail fault
    | none => Logged.ok front
  | .notName start, _ => Logged.fail (.form .keyNotString (start + 1))
  | .nameOnly name settled next, front => do
    let name ← Logged.ofExcept name.value
    if front.has name then
      Logged.fail (.content (.duplicateEntry kind name) settled)
    else
      Logged.fail (colonFault next settled)
  | .member name nameSettled value settled rest, front => do
    let name ← Logged.ofExcept name.value
    if front.has name then
      Logged.fail (.content (.duplicateEntry kind name) nameSettled)
    else do
      let x ← (decode depth value).mapError fun fault => fault.settle settled
      readEntries kind decode depth rest (front ++ [(name, x)])

theorem propertyMembers_eq (depth : Nat) : ∀ (members : Members) (front : PropertySet),
    propertyMembers depth members front = readEntries .property propertySpec depth members front
  | .done _, _ => rfl
  | .notName _, _ => by rw [propertyMembers, readEntries]
  | .nameOnly _ _ _, _ => by rw [propertyMembers, readEntries]
  | .member _ _ _ _ rest, front => by
      rw [propertyMembers, readEntries]
      simp only [propertyMembers_eq depth rest]

theorem typeMembers_eq (depth : Nat) : ∀ (members : Members) (front : Schema),
    typeMembers depth members front = readEntries .type propertySet depth members front
  | .done _, _ => rfl
  | .notName _, _ => by rw [typeMembers, readEntries]
  | .nameOnly _ _ _, _ => by rw [typeMembers, readEntries]
  | .member _ _ _ _ rest, front => by
      rw [typeMembers, readEntries]
      simp only [typeMembers_eq depth rest]

end Tree

/-- Entries are read in the same way if the values under the names are. -/
theorem Members.Spells.readEntries {α : Type} {kind : EntryKind}
    {decode : Nat → Tree → Logged Fault α} {decode' : Json → Logged ContentError α} {depth : Nat}
    {place inner : Place} (hunder : ∀ name, place.under name = inner)
    (hpart : ∀ {tree value}, Tree.Passable tree → tree.json depth = .ok value →
      AgreesWhen (tree.DeclaresOnce inner) (decode depth tree).outcome (decode' value).outcome)
    {members : Members} {entries : Entries Json} (h : members.Spells depth entries)
    (hpassable : members.Passable) (front : Entries α) :
    AgreesWhen (members.DeclaresOnce place)
      (Tree.readEntries kind decode depth members front).outcome
      (Json.readEntries kind decode' entries front).outcome := by
  induction h generalizing front with
  | done stop => exact .ok _ trivial
  | @member _ _ _ _ _ key _ _ hname hvalue _ ih =>
      rw [Tree.readEntries, Json.readEntries, hname, Logged.ofExcept_ok_bind]
      by_cases hhas : front.has key
      · rw [if_pos hhas, if_pos hhas]
        exact .error _ _
      · rw [if_neg hhas, if_neg hhas]
        refine (((hpart hpassable.2.1 hvalue).mapError _).outcome_bind fun x =>
          ih hpassable.2.2 _).congr ?_
        rw [Members.declaresOnce_member_iff hname, hunder]

/-- The entries of an object are those of its value, if no name is repeated. -/
theorem Members.Spells.readEntries_object {α : Type} {kind : EntryKind}
    {decode : Nat → Tree → Logged Fault α} {decode' : Json → Logged ContentError α} {depth : Nat}
    {place inner : Place} (hdeclares : ∀ name, place.declares name = true)
    (hunder : ∀ name, place.under name = inner)
    (hpart : ∀ {tree value}, Tree.Passable tree → tree.json depth = .ok value →
      AgreesWhen (tree.DeclaresOnce inner) (decode depth tree).outcome (decode' value).outcome)
    {members : Members} {entries : Entries Json} (h : members.Spells depth entries)
    (hpassable : members.Passable) (start : Nat) :
    AgreesWhen ((Tree.object start members).DeclaresOnce place)
      (Tree.readEntries kind decode depth members []).outcome
      (Json.readEntries kind decode' (Entries.putAll [] entries) []).outcome := by
  refine ((h.readEntries hunder hpart hpassable []).trans
    (Json.readEntries_putAll kind decode' entries)).congr ?_
  rw [Tree.DeclaresOnce, h.names_eq, Place.filter_declares_of_all hdeclares]

section

variable {depth : Nat}
  (hpart : ∀ {tree value}, Tree.Passable tree → tree.json depth = .ok value →
    tree.Agrees depth value)

include hpart

/-- The fields in an array are read in the same way if the items are. -/
theorem Items.Spells.fieldItems {items : Items} {xs : List Json} (h : items.Spells depth xs)
    (hpassable : items.Passable) (length position : Nat) (draft : SpecDraft) :
    AgreesWhen (items.DeclaresOnce .spec position)
      (Tree.fieldItems depth items position draft).outcome
      (Json.fieldElements length xs position draft).outcome := by
  induction h generalizing position draft with
  | done stop =>
      rw [Tree.fieldItems, Json.fieldElements]
      by_cases hposition : position < SpecField.all.length
      · rw [if_pos hposition, if_pos hposition]
        exact (AgreesWhen.refl trivial _).mapError _
      · rw [if_neg hposition, if_neg hposition]
        exact (AgreesWhen.refl trivial _).mapError _
  | item hvalue _ ih =>
      rw [Tree.fieldItems, Json.fieldElements]
      cases hfield : SpecField.all[position]? with
      | none => exact .error _ _
      | some field =>
          have hread := (hpart hpassable.1 hvalue).fieldValue (Tree.spells_of_json hvalue)
          refine (((SpecDraft.read_agrees hread draft field).mapError _).outcome_bind fun draft =>
            ih hpassable.2 _ draft).congr ?_
          simp [Items.DeclaresOnce, Place.item, hfield]

/-- The fields in an object are read in the same way if the values under them are.
Unknown ones are passed over in the text. -/
theorem Members.Spells.fieldMembers {members : Members} {entries : Entries Json}
    (h : members.Spells depth entries) (hpassable : members.Passable) (draft : SpecDraft) :
    AgreesWhen (members.DeclaresOnce .spec)
      (Tree.fieldMembers depth members draft).outcome
      (Json.fieldMembers entries draft).outcome := by
  induction h generalizing draft with
  | done stop => exact (AgreesWhen.refl trivial _).mapError _
  | @member _ _ _ tree _ key _ _ hname hvalue _ ih =>
      rw [Tree.fieldMembers, Json.fieldMembers, hname, Logged.ofExcept_ok_bind]
      cases hfield : SpecField.ofName? key with
      | none =>
          dsimp only
          rw [Tree.passOver_of_json hpassable.2.1 hvalue, Logged.ofExcept_ok_bind]
          refine (ih hpassable.2.2 draft).congr ?_
          simp [Members.declaresOnce_member_iff hname, Place.under, hfield,
            tree.declaresOnce_plain]
      | some field =>
          dsimp only
          by_cases hhas : draft.has field
          · rw [if_pos hhas, if_pos hhas]
            exact .error _ _
          · rw [if_neg hhas, if_neg hhas]
            have hread := (hpart hpassable.2.1 hvalue).fieldValue (Tree.spells_of_json hvalue)
            refine (((SpecDraft.read_agrees hread draft field).mapError _).outcome_bind
              fun draft => ih hpassable.2.2 draft).congr ?_
            simp [Members.declaresOnce_member_iff hname, Place.under, hfield]

/-- The fields of an object are those of its value, if no known field is repeated. -/
theorem Members.Spells.fieldMembers_object {members : Members} {entries : Entries Json}
    (h : members.Spells depth entries) (hpassable : members.Passable) (start : Nat) :
    AgreesWhen ((Tree.object start members).DeclaresOnce .spec)
      (Tree.fieldMembers depth members .empty).outcome
      (Json.fieldMembers (Entries.putAll [] entries) .empty).outcome := by
  refine ((h.fieldMembers hpart hpassable .empty).trans
    (Json.fieldMembers_putAll entries)).congr ?_
  rw [Tree.DeclaresOnce, h.names_eq]

end

/-- What is read as properties or as a property from a text is what is read from the value
that it spells, if the text declares everything once. -/
theorem Tree.agrees {depth : Nat} {tree : Tree} {value : Json} (hpassable : tree.Passable)
    (h : tree.json depth = .ok value) : tree.Agrees depth value := by
  -- the parts of a tree are read with less depth, whatever their size
  induction depth generalizing tree value with
  | zero =>
      cases spells_of_json h <;> exact ⟨.error _ _, .error _ _⟩
  | succ depth ih =>
      cases spells_of_json h with
      | null _ => exact ⟨.error _ _, .error _ _⟩
      | boolean _ => exact ⟨.error _ _, .error _ _⟩
      | number _ => exact ⟨.error _ _, .error _ _⟩
      | string _ => exact ⟨.error _ _, .error _ _⟩
      | @array _ start _ xs hdepth hitems =>
          refine ⟨.error _ _, ?_⟩
          rw [propertySpec, if_neg (by omega), Json.propertySpec]
          exact (hitems.fieldItems ih hpassable xs.length 0 .empty).outcome_bind_of_true
            fun fields => (AgreesWhen.refl trivial _).mapError _
      | @object _ start _ _ hdepth hmembers =>
          constructor
          · rw [propertySet, if_neg (by omega), Json.propertySet, propertyMembers_eq,
              Json.propertyMembers_eq]
            exact hmembers.readEntries_object (fun _ => rfl) (fun _ => rfl)
              (fun hpassable hvalue => (ih hpassable hvalue).spec) hpassable start
          · rw [propertySpec, if_neg (by omega), Json.propertySpec]
            exact (hmembers.fieldMembers_object ih hpassable start).outcome_bind_of_true
              fun fields => (AgreesWhen.refl trivial _).mapError _

/-- What is read as a schema from a text is what is read from the value that it spells, if
the text declares everything once. -/
theorem Tree.schema_agrees {depth : Nat} {tree : Tree} {value : Json}
    (hpassable : tree.Passable) (h : tree.json depth = .ok value) :
    AgreesWhen (tree.DeclaresOnce .types) (tree.schema depth).outcome value.schema.outcome := by
  cases spells_of_json h with
  | @object _ start _ _ hdepth hmembers =>
      rw [schema, if_neg (by omega), Json.schema, typeMembers_eq, Json.typeMembers_eq]
      refine (hmembers.readEntries_object (fun _ => rfl) (fun _ => rfl)
        (fun hpassable hvalue => (agrees hpassable hvalue).properties) hpassable
        start).outcome_bind_of_true fun types => ?_
      by_cases hempty : Entries.has types ""
      · rw [if_pos hempty, if_pos hempty]
        exact .error _ _
      · rw [if_neg hempty, if_neg hempty]
        exact .ok types trivial
  | _ => exact .error _ _

theorem json_of_readRecord {text : String} {value : Json} (h : readRecord text = .ok value) :
    (Document.ofText text).root.json depthLimit = .ok value ∧
      (Document.ofText text).checkEnd = .ok () := by
  rw [readRecord] at h
  split at h
  · cases h
  · cases hvalue : Json.ofText text with
    | error fault => rw [hvalue] at h; cases h
    | ok x =>
        rw [hvalue] at h
        cases h
        obtain ⟨y, hjson, hend⟩ := Except.bind_eq_ok_iff.mp hvalue
        obtain ⟨_, hcheck, hy⟩ := Except.bind_eq_ok_iff.mp hend
        cases hy
        exact ⟨hjson, hcheck⟩

/-- If nothing follows the value of a text, only the value is decoded. -/
theorem outcome_decodeText {α : Type} {text : String}
    (hcheck : (Document.ofText text).checkEnd = .ok ()) (decode : Nat → Tree → Logged Fault α) :
    (decodeText decode text).outcome =
      (decode depthLimit (Document.ofText text).root).outcome.mapError (·.place text) := by
  have hend (x : α) : (do
      Logged.ofExcept (Document.ofText text).checkEnd
      return x : Logged Fault α).outcome = .ok x := by
    rw [hcheck, Logged.ofExcept_ok_bind]
    rfl
  rw [decodeText, Logged.mapError, Logged.bind_def, Logged.outcome_bind]
  simp only [hend]
  cases (decode depthLimit (Document.ofText text).root).outcome <;> rfl

/-- A text that spells a record describes a schema if and only if the record does and the
text declares everything once, and then both describe the same. -/
theorem Schema.ofText_agrees {text : String} {value : Json} (h : readRecord text = .ok value) :
    AgreesWhen ((Document.ofText text).root.DeclaresOnce .types) (Schema.ofText text).outcome
      (Schema.ofValue value).outcome := by
  obtain ⟨hjson, hcheck⟩ := json_of_readRecord h
  have hschema := Tree.schema_agrees (Document.ofText_passable text) hjson
  rw [Schema.ofText, Schema.ofValue, Logged.mapError, Logged.mapError, outcome_decodeText hcheck]
  exact ((hschema.mapError _).mapError _).mapError_value _

namespace Schema

/-- The text of a record and the record describe the same schemas. What the text describes,
the record does, with types and properties in the same order, and conversely if no object
of the text repeats a name. A text that repeats the name of a type or of a property, or a
known field of a property, describes no schema; the record does not show this, since each
of its objects has kept the last value of every name. -/
theorem ofText_iff_ofValue {text : String} {value : Json} (h : readRecord text = .ok value) :
    (∀ schema, (ofText text).outcome = .ok schema → (ofValue value).outcome = .ok schema) ∧
      ((Document.ofText text).root.KeysDistinct →
        ∀ schema, (ofValue value).outcome = .ok schema → (ofText text).outcome = .ok schema) ∧
      (¬(Document.ofText text).root.DeclaresOnce .types →
        ∃ error, (ofText text).outcome = .error error) ∧
      (∀ {depth start : Nat} {members : Members} {all : Entries Json},
        (Tree.object start members).json depth = .ok (.object all) →
          ∀ key, Option.Rel (fun tree x => tree.json (depth - 1) = .ok x) (members.last? key)
            (all.get? key)) := by
  have hagrees := ofText_agrees h
  refine ⟨fun schema htext => ((hagrees schema).mp htext).1,
    fun hdistinct schema hvalue => (hagrees schema).mpr ⟨hvalue, hdistinct.declaresOnce .types⟩,
    fun hrepeats => ?_, Tree.get?_of_json_object⟩
  cases htext : (ofText text).outcome with
  | error error => exact ⟨error, rfl⟩
  | ok schema => exact absurd ((hagrees schema).mp htext).2 hrepeats

/-- One type with one property. -/
def orderText : String :=
  "\x7b\"Order\":\x7b\"id\":\x7b\"type\":\"string\"\x7d\x7d\x7d"

/-- One type that is declared twice. -/
def repeatedOrderText : String :=
  "\x7b\"Order\":\x7b\x7d,\"Order\":\x7b\"id\":\x7b\"type\":\"string\"\x7d\x7d\x7d"

/-- Both routes read a type. If it is repeated, only the record describes a schema, that of
the last declaration. -/
theorem ofText_iff_ofValue_order :
    (∃ value schema, readRecord orderText = .ok value ∧
      (Document.ofText orderText).root.KeysDistinct ∧ (ofText orderText).outcome = .ok schema ∧
        (ofValue value).outcome = .ok schema ∧ schema.names = ["Order"]) ∧
    ∃ value schema error, readRecord repeatedOrderText = .ok value ∧
      (ofText repeatedOrderText).outcome = .error error ∧
        (ofValue value).outcome = .ok schema ∧
          (schema.get? "Order").map Entries.names = ["id"] := by
  constructor
  · obtain ⟨value, hvalue⟩ := Except.exists_eq_ok (readRecord orderText) (by decide +kernel)
    have hnames : (ofText orderText).outcome.toOption.map Entries.names = some ["Order"] := by
      decide +kernel
    obtain ⟨schema, hschema⟩ := Except.exists_eq_ok (ofText orderText).outcome (by decide +kernel)
    rw [hschema] at hnames
    exact ⟨value, schema, hvalue, by decide +kernel, hschema,
      (ofText_iff_ofValue hvalue).1 schema hschema, Option.some.inj hnames⟩
  · obtain ⟨value, hvalue⟩ := Except.exists_eq_ok (readRecord repeatedOrderText)
      (by decide +kernel)
    have hnames : ((readRecord repeatedOrderText).toOption.bind fun value =>
        (ofValue value).outcome.toOption).map (fun schema =>
          (Entries.get? schema "Order").map Entries.names) = some (some ["id"]) := by
      decide +kernel
    rw [hvalue] at hnames
    obtain ⟨error, herror⟩ := (ofText_iff_ofValue hvalue).2.2.1 (by decide +kernel)
    cases hschema : (ofValue value).outcome with
    | error error => simp [Except.toOption, hschema] at hnames
    | ok schema =>
        refine ⟨value, schema, error, hvalue, herror, hschema, ?_⟩
        simpa [Except.toOption, hschema] using hnames

end Schema

end RecordSchema
