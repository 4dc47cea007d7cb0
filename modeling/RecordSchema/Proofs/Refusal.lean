import RecordSchema.Proofs.Compile
import RecordSchema.Proofs.Occurrence

/-!
# What a refused schema is told

A schema is refused for its references only, and the error names the fault. An unknown type
is reported for the first reference to one, in the order of `Schema.occurrences`, and a circle
for types that do refer to each other in that order.

Main statement: `compile_refuses_with_evidence`.
-/

namespace RecordSchema

namespace Schema

/-- Compiling fails just where the check of the references does, and with its error. -/
theorem compile_eq_error_iff {schema : Schema} {error : SchemaError} :
    schema.compile.outcome = .error error ↔ schema.checkReferences = .error error := by
  refine ⟨fun h => ?_, compile_of_checkReferences_error⟩
  cases hcheck : schema.checkReferences with
  | ok _ =>
      obtain ⟨hclosed, hacyclic⟩ := checkReferences_eq_ok_iff.mp hcheck
      rw [compile_of_acyclic hclosed hacyclic] at h
      cases h
  | error error' =>
      rw [compile_of_checkReferences_error hcheck] at h
      cases h
      rfl

/-- The check of the references fails at a target or, if all are declared, at a circle. -/
theorem checkReferences_eq_error_iff {schema : Schema} {error : SchemaError} :
    schema.checkReferences = .error error ↔
      schema.checkTargets schema = .error error ∨
        schema.checkTargets schema = .ok () ∧ schema.checkCircles = .error error := by
  rw [checkReferences]
  cases htargets : schema.checkTargets schema with
  | error error' => simp [bind, Except.bind]
  | ok _ => simp [bind, Except.bind]

/-- The types of a circle are declared. -/
theorem mem_names_of_isCircle {schema : Schema} {first : String} {rest : List String}
    (hchain : List.IsChain schema.RefersTo (first :: rest ++ [first])) :
    ∀ name ∈ first :: rest, name ∈ schema.names := by
  intro name hname
  obtain ⟨front, back, hsplit⟩ := List.append_of_mem hname
  rw [hsplit, List.append_assoc, List.cons_append] at hchain
  have hback := (List.isChain_append.mp hchain).2.1
  -- every type of the circle has one behind it that it refers to
  obtain ⟨next, others, hnext⟩ := List.exists_cons_of_ne_nil
    (List.append_ne_nil_of_right_ne_nil back (List.cons_ne_nil first []))
  rw [hnext] at hback
  exact (List.isChain_cons_cons.mp hback).1.mem_names

/-- A schema that is refused is told either the first of its references, in the order of
declaration and in depth, whose target is not declared, or distinct declared types each of
which refers to the next and the last to the first, in the wording of the error too. -/
theorem compile_refuses_with_evidence {schema : Schema} {error : SchemaError}
    (h : schema.compile.outcome = .error error) :
    (∃ front occurrence back, schema.occurrences = front ++ occurrence :: back ∧
      (∀ other ∈ front, other.target ∈ schema.names) ∧ occurrence.target ∉ schema.names ∧
      error = .unknownType occurrence.owner occurrence.path.reported occurrence.target) ∨
    ∃ first rest, (first :: rest).Nodup ∧ (∀ name ∈ first :: rest, name ∈ schema.names) ∧
      List.IsChain schema.RefersTo (first :: rest ++ [first]) ∧
      error = .cyclicType (first :: rest ++ [first]) ∧
      error.message = "schema contains recursive type references: " ++
        String.intercalate " -> " (first :: rest ++ [first]) := by
  rcases checkReferences_eq_error_iff.mp (compile_eq_error_iff.mp h) with htarget | ⟨-, hcircle⟩
  · exact .inl (checkTargets_eq_error_iff.mp htarget)
  · rcases checkCircles_cases schema with
      ⟨hok, -⟩ | ⟨nodes, hfail, first, rest, rfl, hnodup, hchain⟩
    · cases hok.symm.trans hcircle
    · cases hfail.symm.trans hcircle
      exact .inr ⟨first, rest, hnodup, mem_names_of_isCircle hchain, hchain, rfl, rfl⟩

theorem compile_refuses_with_evidence_node :
    ∃ error, (Schema.compile [("Node", [("next", .named "Node")])]).outcome = .error error ∧
      error = .cyclicType ["Node", "Node"] := by
  let schema : Schema := [("Node", [("next", .named "Node")])]
  have hrefers : schema.RefersTo "Node" "Node" :=
    ⟨[("next", .named "Node")], rfl, "next", .named "Node", List.mem_cons_self, .named⟩
  have hclosed : schema.Closed := by
    intro owner properties hmem target hmentions
    cases List.mem_singleton.mp hmem
    obtain ⟨key, spec, hspec, htarget⟩ := hmentions
    cases List.mem_singleton.mp hspec
    cases htarget
    exact List.mem_cons_self
  obtain ⟨nodes, hfail⟩ := compile_of_not_acyclic hclosed fun h => h "Node" (.single hrefers)
  refine ⟨_, hfail, ?_⟩
  rcases compile_refuses_with_evidence hfail with ⟨_, _, _, _, _, _, hunknown⟩ |
    ⟨first, rest, hnodup, hnames, -, hnodes, -⟩
  · cases hunknown
  · have hnode : ∀ name ∈ first :: rest, name = "Node" := fun name hname =>
      List.mem_singleton.mp (hnames name hname)
    obtain ⟨rfl, hrest⟩ := List.forall_mem_cons.mp hnode
    obtain rfl : rest = [] := by
      apply List.eq_nil_iff_forall_not_mem.mpr
      intro name hname
      exact (List.nodup_cons.mp hnodup).1 (hrest name hname ▸ hname)
    exact hnodes

end Schema

end RecordSchema
