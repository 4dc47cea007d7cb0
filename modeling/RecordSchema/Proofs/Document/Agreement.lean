import RecordSchema.Proofs.Document.PassOver
import RecordSchema.Proofs.Document.Repetition
import RecordSchema.Schema.FromText
import RecordSchema.Schema.FromValue

/-!
# The decoders of texts and of values agree

A schema can be decoded from the tree of a text or from the value that the tree spells.
The two decoders have different errors, and the value has lost the names that the text
repeats. `AgreesWhen d text value` says that the first result is a success if and only if
the second is, with the same result, and the condition `d` holds: the condition is what a
text can violate and a value cannot. The conditions of the parts of a decoder add up to
the one of the whole, which is `Tree.DeclaresOnce`.
-/

namespace RecordSchema

/-- The first result is a success if and only if the condition holds and the second is a
success, with the same result. -/
def AgreesWhen {ε δ α : Type} (d : Prop) (text : Except ε α) (value : Except δ α) : Prop :=
  ∀ x, text = .ok x ↔ value = .ok x ∧ d

namespace AgreesWhen

variable {ε ε' δ δ' α β : Type} {d d' : Prop} {text : Except ε α} {value : Except δ α}

theorem ok (x : α) (h : d) : AgreesWhen d (.ok x : Except ε α) (.ok x : Except δ α) :=
  fun _ => by simp [h]

theorem error (fault : ε) (error : δ) :
    AgreesWhen d (.error fault : Except ε α) (.error error : Except δ α) :=
  fun _ => by simp

theorem refl (h : d) (result : Except ε α) : AgreesWhen d result result :=
  fun _ => ⟨fun hx => ⟨hx, h⟩, fun hx => hx.1⟩

/-- Neither result is a success where the condition holds, nor is that of the text. -/
theorem of_failure (htext : ∀ x, text ≠ .ok x) (hvalue : d → ∀ x, value ≠ .ok x) :
    AgreesWhen d text value :=
  fun x => ⟨fun hx => absurd hx (htext x), fun hx => absurd hx.1 (hvalue hx.2 x)⟩

/-- Two results that are equal on a condition agree on it, if the first is a success only
when it holds. -/
theorem of_eq {text value : Except ε α}
    (hsuccess : ∀ x, text = .ok x → d) (heq : d → text = value) : AgreesWhen d text value := by
  intro x
  constructor
  · intro hx
    have hd := hsuccess x hx
    exact ⟨heq hd ▸ hx, hd⟩
  · rintro ⟨hx, hd⟩
    rw [heq hd, hx]

theorem congr (h : AgreesWhen d text value) (hd : d ↔ d') : AgreesWhen d' text value :=
  fun x => by rw [h x, hd]

theorem trans {next : Except ε' α} (h : AgreesWhen d text value)
    (hnext : AgreesWhen d' value next) : AgreesWhen (d' ∧ d) text next :=
  fun x => by rw [h x, hnext x, and_assoc]

/-- The errors of the text may be changed. -/
theorem mapError (h : AgreesWhen d text value) (f : ε → ε') :
    AgreesWhen d (text.mapError f) value :=
  fun x => by rw [← h x]; cases text <;> simp

/-- The errors of the value may be changed. -/
theorem mapError_value (h : AgreesWhen d text value) (f : δ → δ') :
    AgreesWhen d text (value.mapError f) :=
  fun x => by rw [h x]; cases value <;> simp

/-- Two steps agree if both do; the second may ask for a condition of its own. -/
theorem bind {next : α → Except ε β} {next' : α → Except δ β} (h : AgreesWhen d text value)
    (hnext : ∀ x, AgreesWhen d' (next x) (next' x)) :
    AgreesWhen (d ∧ d') (text >>= next) (value >>= next') := by
  intro y
  constructor
  · intro hy
    obtain ⟨x, htext, hy⟩ := Except.bind_eq_ok_iff.mp hy
    obtain ⟨hvalue, hd⟩ := (h x).mp htext
    obtain ⟨hy, hd'⟩ := (hnext x y).mp hy
    exact ⟨Except.bind_eq_ok_iff.mpr ⟨x, hvalue, hy⟩, hd, hd'⟩
  · rintro ⟨hy, hd, hd'⟩
    obtain ⟨x, hvalue, hy⟩ := Except.bind_eq_ok_iff.mp hy
    exact Except.bind_eq_ok_iff.mpr ⟨x, (h x).mpr ⟨hvalue, hd⟩, (hnext x y).mpr ⟨hy, hd'⟩⟩

theorem bind_of_true {next : α → Except ε β} {next' : α → Except δ β}
    (h : AgreesWhen d text value) (hnext : ∀ x, AgreesWhen True (next x) (next' x)) :
    AgreesWhen d (text >>= next) (value >>= next') :=
  (h.bind hnext).congr (iff_of_eq (and_true d))

theorem outcome_bind {text : Logged ε α} {value : Logged δ α} {next : α → Logged ε β}
    {next' : α → Logged δ β} (h : AgreesWhen d text.outcome value.outcome)
    (hnext : ∀ x, AgreesWhen d' (next x).outcome (next' x).outcome) :
    AgreesWhen (d ∧ d') (text >>= next).outcome (value >>= next').outcome := by
  rw [Logged.bind_def, Logged.bind_def, Logged.outcome_bind, Logged.outcome_bind]
  exact h.bind hnext

theorem outcome_bind_of_true {text : Logged ε α} {value : Logged δ α} {next : α → Logged ε β}
    {next' : α → Logged δ β} (h : AgreesWhen d text.outcome value.outcome)
    (hnext : ∀ x, AgreesWhen True (next x).outcome (next' x).outcome) :
    AgreesWhen d (text >>= next).outcome (value >>= next').outcome :=
  (h.outcome_bind hnext).congr (iff_of_eq (and_true d))

end AgreesWhen

theorem Logged.ofExcept_ok_bind {ε α β : Type} (x : α) (next : α → Logged ε β) :
    (Logged.ofExcept (.ok x) >>= next) = next x := by
  rw [Logged.bind_def, Logged.ofExcept, ← Logged.ok, Logged.ok_bind]

/-! ## Values in their roles -/

namespace Tree.Spells

variable {depth : Nat} {tree : Tree} {value : Json}

theorem asString (h : tree.Spells depth value) : AgreesWhen True tree.asString value.asString := by
  cases h with
  | string hvalue => rw [Tree.asString, hvalue]; exact .ok _ trivial
  | _ => exact .error _ _

theorem asBool (h : tree.Spells depth value) : AgreesWhen True tree.asBool value.asBool := by
  cases h with
  | boolean hvalue => rw [Tree.asBool, hvalue]; exact .ok _ trivial
  | _ => exact .error _ _

theorem asLength (h : tree.Spells depth value) :
    AgreesWhen True tree.asLength value.asLength := by
  cases h with
  | @number _ _ _ n hvalue =>
      rw [Tree.asLength, hvalue]
      exact (AgreesWhen.refl trivial n.asLength).mapError _
  | _ => exact .error _ _

theorem asUnit (h : tree.Spells depth value) : AgreesWhen True tree.asUnit value.asUnit := by
  cases h with
  | null hvalue => rw [Tree.asUnit, hvalue]; exact .ok _ trivial
  | _ => exact .error _ _

end Tree.Spells

/-! ## Choices -/

section Choice

variable {α : Type} (ofName? : String → Option α) (choices : List String) {depth : Nat}

theorem choose_agrees {name : Lexeme String} {key : String} (h : name.value = .ok key) :
    AgreesWhen True (Tree.choose ofName? choices name) (Json.choose ofName? choices key) := by
  rw [Tree.choose, h, Json.choose]
  dsimp only [bind, Except.bind]
  cases ofName? key with
  | none => exact .error _ _
  | some x => exact .ok x trivial

/-- An object with one name makes the same choice. -/
theorem asChoice_agrees_of_single {name : Lexeme String} {tree : Tree} {key : String} {x : Json}
    (start nameSettled settled stop : Nat) (hdepth : 0 < depth) (hname : name.value = .ok key)
    (htree : tree.Spells depth x) :
    AgreesWhen True
      ((Tree.object start (.member name nameSettled tree settled (.done (.closed stop)))).asChoice
        ofName? choices (depth + 1))
      (Json.asChoice ofName? choices (.object [(key, x)])) := by
  rw [Tree.asChoice.eq_def]
  dsimp only
  rw [if_neg (by omega), Json.asChoice]
  exact (choose_agrees ofName? choices hname).bind_of_true fun chosen =>
    htree.asUnit.bind_of_true fun _ => .ok chosen trivial

/-- An object with several names makes no choice. -/
theorem asChoice_agrees_of_several {name name' : Lexeme String} {tree tree' : Tree}
    {rest : Members} {key key' : String} {x x' : Json} {entries : Entries Json}
    (start nameSettled nameSettled' settled settled' : Nat)
    (hspells : Members.Spells depth
      (.member name nameSettled tree settled (.member name' nameSettled' tree' settled' rest))
      ((key, x) :: (key', x') :: entries)) :
    AgreesWhen
      (Tree.DeclaresOnce (.object start
        (.member name nameSettled tree settled (.member name' nameSettled' tree' settled' rest)))
        .transform)
      ((Tree.object start
        (.member name nameSettled tree settled
          (.member name' nameSettled' tree' settled' rest))).asChoice ofName? choices (depth + 1))
      (Json.asChoice ofName? choices
        (.object (Entries.putAll [] ((key, x) :: (key', x') :: entries)))) := by
  apply AgreesWhen.of_failure
  · intro chosen h
    rw [Tree.asChoice.eq_def] at h
    dsimp only at h
    split at h
    · cases h
    · obtain ⟨_, _, h⟩ := Except.bind_eq_ok_iff.mp h
      obtain ⟨_, _, h⟩ := Except.bind_eq_ok_iff.mp h
      cases h
  · rintro ⟨hnodup, _⟩ chosen h
    rw [hspells.names_eq, Place.filter_declares_of_all fun _ => rfl] at hnodup
    rw [Entries.putAll_of_nodup hnodup] at h
    cases h

/-- A name of a choice is read in the same way, except that the text of an object may
repeat it. -/
theorem Tree.Spells.asChoice {tree : Tree} {value : Json} (h : tree.Spells depth value) :
    AgreesWhen (tree.DeclaresOnce .transform) (tree.asChoice ofName? choices depth)
      (value.asChoice ofName? choices) := by
  cases h with
  | null _ => exact .error _ _
  | boolean _ => exact .error _ _
  | number _ => exact .error _ _
  | array _ _ => exact .error _ _
  | string hvalue =>
      rw [Tree.asChoice, Json.asChoice]
      exact (choose_agrees ofName? choices hvalue).congr (by simp [Tree.DeclaresOnce])
  | @object depth start _ _ hdepth hmembers =>
      cases hmembers with
      | done stop =>
          rw [Tree.asChoice.eq_def]
          dsimp only
          rw [if_neg (by omega)]
          exact .error _ _
      | member hname hvalue hrest =>
          cases hrest with
          | done stop =>
              refine (asChoice_agrees_of_single ofName? choices start _ _ stop hdepth hname
                (spells_of_json hvalue)).congr ?_
              simp only [Tree.DeclaresOnce, Members.DeclaresOnce, Members.names, hname, Place.under,
                declaresOnce_plain, and_true, true_iff]
              exact (List.nodup_singleton _).filter _
          | member hname' hvalue' hrest' =>
              exact asChoice_agrees_of_several ofName? choices start _ _ _ _
                (.member hname hvalue (.member hname' hvalue' hrest'))

end Choice

/-! ## Transforms -/

theorem Items.Spells.asTransformItems {depth : Nat} {items : Items} {xs : List Json}
    (h : items.Spells depth xs) (position : Nat) :
    AgreesWhen (items.DeclaresOnce .transforms position) (Tree.asTransformItems depth items)
      (xs.mapM (Json.asChoice Transform.ofName? Transform.names)) := by
  induction h generalizing position with
  | done stop => exact .ok _ trivial
  | item hvalue _ ih =>
      rw [Tree.asTransformItems, List.mapM_cons]
      exact ((Tree.spells_of_json hvalue).asChoice _ _).bind fun x =>
        (ih (position + 1)).bind_of_true fun xs => .ok (x :: xs) trivial

theorem Tree.Spells.asTransforms {depth : Nat} {tree : Tree} {value : Json}
    (h : tree.Spells depth value) :
    AgreesWhen (tree.DeclaresOnce .transforms) (tree.asTransforms depth) value.asTransforms := by
  cases h with
  | array hdepth hitems =>
      rw [Tree.asTransforms, if_neg (by omega)]
      exact hitems.asTransformItems 0
  | _ => exact .error _ _

/-! ## Fields -/

/-- What a part of a text and a value in memory, or two parts of texts, read as in the roles
of fields agrees, on the condition of each role. -/
structure FieldValue.Agrees {ε δ : Type} (once : Place → Prop) (textual : FieldValue ε)
    (held : FieldValue δ) : Prop where
  text : AgreesWhen True textual.text held.text
  flag : AgreesWhen True textual.flag held.flag
  length : AgreesWhen True textual.length held.length
  transforms : AgreesWhen (once .transforms) textual.transforms held.transforms
  null? : textual.null? = none ∧ held.null? = none ∨
    textual.null? = some (.ok ()) ∧ held.null? = some (.ok ()) ∧ ∀ place, once place
  properties : AgreesWhen (once .properties) (textual.properties ()).outcome
    (held.properties ()).outcome
  spec : AgreesWhen (once .spec) (textual.spec ()).outcome (held.spec ()).outcome
  plain : once .plain

section

variable {ε δ : Type} {once : Place → Prop} {textual : FieldValue ε} {held : FieldValue δ}

/-- A role that null may take agrees if the role does. -/
theorem FieldValue.Agrees.orNull {α : Type} (h : FieldValue.Agrees once textual held)
    {place : Place} {read : Unit → Logged ε α} {read' : Unit → Logged δ α}
    (hread : AgreesWhen (once place) (read ()).outcome (read' ()).outcome) :
    AgreesWhen (once place) (textual.orNull read).outcome (held.orNull read').outcome := by
  rcases h.null? with ⟨htextual, hheld⟩ | ⟨htextual, hheld, honce⟩
  · rw [FieldValue.orNull, FieldValue.orNull, htextual, hheld]
    exact hread.outcome_bind_of_true fun x => .ok (some x) trivial
  · rw [FieldValue.orNull, FieldValue.orNull, htextual, hheld]
    exact .ok none (honce place)

/-- A field is read in the same way, on the condition of its place. -/
theorem SpecDraft.read_agrees (h : FieldValue.Agrees once textual held) (draft : SpecDraft)
    (field : SpecField) :
    AgreesWhen (once field.place) (draft.read textual field).outcome
      (draft.read held field).outcome := by
  -- a role without a decoder of its own asks for nothing
  have hplain {α : Type} {read : Except ε α} {read' : Except δ α}
      (hread : AgreesWhen True read read') : AgreesWhen (once .plain) read read' :=
    hread.congr (by simp [h.plain])
  cases field with
  | type => exact (hplain h.text).outcome_bind_of_true fun _ => .ok _ trivial
  | required => exact (hplain h.flag).outcome_bind_of_true fun _ => .ok _ trivial
  | minLength => exact (h.orNull (hplain h.length)).outcome_bind_of_true fun _ => .ok _ trivial
  | isInteger => exact (h.orNull (hplain h.flag)).outcome_bind_of_true fun _ => .ok _ trivial
  | startsWith => exact (h.orNull (hplain h.text)).outcome_bind_of_true fun _ => .ok _ trivial
  | properties => exact (h.orNull h.properties).outcome_bind_of_true fun _ => .ok _ trivial
  | items => exact (h.orNull h.spec).outcome_bind_of_true fun _ => .ok _ trivial
  | transform => exact h.transforms.outcome_bind_of_true fun _ => .ok _ trivial

end

/-- A part of a text and the value that it spells agree where the part is a property, or a
set of properties. -/
structure Tree.Agrees (depth : Nat) (tree : Tree) (value : Json) : Prop where
  properties : AgreesWhen (tree.DeclaresOnce .properties) (tree.propertySet depth).outcome
    value.propertySet.outcome
  spec : AgreesWhen (tree.DeclaresOnce .spec) (tree.propertySpec depth).outcome
    value.propertySpec.outcome

/-- A part that agrees where it has a decoder of its own agrees in every role of fields. -/
theorem Tree.Agrees.fieldValue {depth : Nat} {tree : Tree} {value : Json}
    (h : tree.Agrees depth value) (hspells : tree.Spells depth value) :
    FieldValue.Agrees tree.DeclaresOnce
      (tree.fieldValue depth (fun _ => tree.propertySet depth) fun _ => tree.propertySpec depth)
      (value.fieldValue (fun _ => value.propertySet) fun _ => value.propertySpec) where
  text := hspells.asString
  flag := hspells.asBool
  length := hspells.asLength
  transforms := hspells.asTransforms
  null? := by
    cases hspells with
    | null hvalue => exact .inr ⟨congrArg some hvalue, rfl, fun _ => trivial⟩
    | _ => exact .inl ⟨rfl, rfl⟩
  properties := h.properties
  spec := h.spec
  plain := tree.declaresOnce_plain

end RecordSchema
