import RecordSchema.Proofs.Report

/-!
# Schemas within larger ones

The search for circles follows the order of declaration, and plans are made and kept in that
order, across all types of a schema. None of this shows in a type: what is accepted and what
is built for it depends on the types that it leads to and on nothing else.

`schema.IsWithin larger` says that `larger` declares the types of `schema` with the same
properties, in any order and among any others. Main statements: a type has the same plan in
both, `Schema.planOf_eq_of_isWithin`, and `Schema.compile_within_larger`.
-/

namespace RecordSchema

namespace Schema

variable {schema larger : Schema}

/-- Every type of the schema is declared in the larger one, with the same properties. -/
def IsWithin (schema larger : Schema) : Prop :=
  ∀ name properties, schema.get? name = some properties → larger.get? name = some properties

namespace IsWithin

theorem mem_names (h : schema.IsWithin larger) {name : String} (hname : name ∈ schema.names) :
    name ∈ larger.names := by
  obtain ⟨properties, hget⟩ := Entries.exists_get?_of_mem_names hname
  exact Entries.mem_names_of_get? (h name properties hget)

/-- References are not lost among more types. -/
theorem refersTo (h : schema.IsWithin larger) {owner target : String}
    (hrefers : schema.RefersTo owner target) : larger.RefersTo owner target := by
  obtain ⟨properties, hget, hmentions⟩ := hrefers
  exact ⟨properties, h owner properties hget, hmentions⟩

/-- A circle stays a circle among more types. -/
theorem acyclic (h : schema.IsWithin larger) (hacyclic : larger.Acyclic) : schema.Acyclic :=
  fun name hcycle => hacyclic name (hcycle.lift id fun _ _ => h.refersTo)

/-- A schema is within each of its orders, if no name is declared twice. -/
theorem of_perm (hperm : schema.Perm larger) (hnodup : schema.names.Nodup) :
    schema.IsWithin larger := by
  intro name properties hget
  rwa [← Entries.get?_of_perm hperm hnodup]

end IsWithin

theorem names_perm (hperm : schema.Perm larger) : schema.names.Perm larger.names :=
  hperm.map Prod.fst

/-- Whether every reference is declared does not depend on the order. -/
theorem Closed.of_perm (hclosed : schema.Closed) (hperm : schema.Perm larger) :
    larger.Closed := by
  intro owner properties hmem target hmentions
  have hlarger := hperm.mem_iff.mpr hmem
  exact (names_perm hperm).mem_iff.mp (hclosed owner properties hlarger target hmentions)

/-- A type has the same plan in a larger schema: the types that it refers to have, and there
are no others in it. -/
theorem planOf_eq_of_isWithin (h : schema.IsWithin larger) (hclosed : schema.Closed)
    (hlarger : larger.Closed) (hacyclic : larger.Acyclic) {name : String}
    (hname : name ∈ schema.names) : schema.planOf name = larger.planOf name := by
  -- references lead to types of lower rank
  induction hrank : rank schema name using Nat.strong_induction_on generalizing name with
  | _ bound ih =>
      obtain ⟨properties, hget⟩ := Entries.exists_get?_of_mem_names hname
      rw [planOf_eq hclosed (h.acyclic hacyclic) hget,
        planOf_eq hlarger hacyclic (h name properties hget), propertyPlans_congr]
      intro target hmentions
      have hrefers : schema.RefersTo name target := ⟨properties, hget, hmentions⟩
      have hlt := rank_lt_of_refersTo hclosed (h.acyclic hacyclic) hrefers
      exact ih _ (hrank ▸ hlt) (hclosed.target_mem_names hrefers) rfl

theorem exists_compile_of_perm (hperm : schema.Perm larger) (hnodup : schema.names.Nodup)
    (hcompile : ∃ compiled, schema.compile.outcome = .ok compiled) :
    ∃ compiled, larger.compile.outcome = .ok compiled := by
  obtain ⟨hclosed, hacyclic⟩ := (exists_compile_iff schema).mp hcompile
  have hback : larger.IsWithin schema :=
    .of_perm hperm.symm ((names_perm hperm).nodup_iff.mp hnodup)
  exact (exists_compile_iff larger).mpr ⟨hclosed.of_perm hperm, hback.acyclic hacyclic⟩

/-- Declaration order and further types do not matter. If a schema and a larger one compile,
each type of the schema has the same plan in both, so that every record is validated with
the same result, in both modes. If the larger one compiles, the schema does as soon as its
references are declared in itself. And a schema whose names are distinct, as `Schema.insert`
keeps them, compiles in one order of its types if it does in another. -/
theorem compile_within_larger (schema larger : Schema) :
    (schema.IsWithin larger →
      (∀ compiled compiled', schema.compile.outcome = .ok compiled →
        larger.compile.outcome = .ok compiled' → ∀ name ∈ schema.names,
          ∃ plan plan', compiled.get? name = some plan ∧ compiled'.get? name = some plan' ∧
            plan = plan' ∧
            ∀ record options, plan.validate record options = plan'.validate record options) ∧
      ((∃ compiled', larger.compile.outcome = .ok compiled') → schema.Closed →
        ∃ compiled, schema.compile.outcome = .ok compiled)) ∧
    (schema.Perm larger → schema.names.Nodup →
      ((∃ compiled, schema.compile.outcome = .ok compiled) ↔
        ∃ compiled', larger.compile.outcome = .ok compiled')) := by
  refine ⟨fun hwithin => ⟨?_, ?_⟩, fun hperm hnodup => ⟨?_, ?_⟩⟩
  · intro compiled compiled' hcompile hcompile' name hname
    obtain ⟨hclosed, -, -⟩ := of_compile_eq_ok hcompile
    obtain ⟨hlarger, hacyclic, -⟩ := of_compile_eq_ok hcompile'
    have hplan := planOf_eq_of_isWithin hwithin hclosed hlarger hacyclic hname
    refine ⟨schema.planOf name, larger.planOf name, ?_, ?_, hplan, fun _ _ => by rw [hplan]⟩
    · rw [get?_of_compile hcompile, if_pos hname]
    · rw [get?_of_compile hcompile', if_pos (hwithin.mem_names hname)]
  · intro hcompile hclosed
    obtain ⟨-, hacyclic⟩ := (exists_compile_iff larger).mp hcompile
    exact (exists_compile_iff schema).mpr ⟨hclosed, hwithin.acyclic hacyclic⟩
  · exact exists_compile_of_perm hperm hnodup
  · exact exists_compile_of_perm hperm.symm ((names_perm hperm).nodup_iff.mp hnodup)

/-- The customers of `orders` alone. -/
def customers : Schema :=
  orders.take 1

/-- The types of `orders` from the last to the first. -/
def ordersReversed : Schema :=
  orders.reverse

theorem compile_within_larger_customers :
    customers.IsWithin ordersReversed ∧ customers.Closed ∧ orders.Perm ordersReversed ∧
      orders.names.Nodup ∧
      ∃ compiled compiled', customers.compile.outcome = .ok compiled ∧
        ordersReversed.compile.outcome = .ok compiled' ∧ "Customer" ∈ customers.names ∧
        ∃ plan plan', compiled.get? "Customer" = some plan ∧
          compiled'.get? "Customer" = some plan' ∧ plan = plan' ∧
          ∀ record options, plan.validate record options = plan'.validate record options := by
  have hwithin : customers.IsWithin ordersReversed := by
    intro name properties hget
    rw [customers, orders, List.take_succ_cons, List.take_zero, Entries.get?_cons] at hget
    split at hget
    · subst name
      exact hget
    · cases hget
  have hclosed : customers.Closed := closed_of_checkTargets rfl
  have hperm : orders.Perm ordersReversed := (List.reverse_perm orders).symm
  have hnodup : orders.names.Nodup := by decide
  obtain ⟨compiled', hcompile'⟩ :=
    ((compile_within_larger orders ordersReversed).2 hperm hnodup).mp exists_compile_orders
  obtain ⟨hplans, hcompiles⟩ := (compile_within_larger customers ordersReversed).1 hwithin
  obtain ⟨compiled, hcompile⟩ := hcompiles ⟨compiled', hcompile'⟩ hclosed
  have hname : "Customer" ∈ customers.names := by decide
  exact ⟨hwithin, hclosed, hperm, hnodup, compiled, compiled', hcompile, hcompile', hname,
    hplans compiled compiled' hcompile hcompile' "Customer" hname⟩

end Schema

end RecordSchema
