import Mathlib.Data.List.Chain
import Mathlib.Data.List.Nodup
import RecordSchema.Proofs.Reference

/-!
# The search for circles

`Schema.visit` walks a graph in depth and keeps the nodes that it has done with.
What makes it right is an order on these: every node stands in front of all nodes
that it leads to, which is `Settled`. A settled list holds no circle, and a search
from a settled list ends either with a longer one that has the nodes it started
from, or with a circle of the graph. So the check of a schema passes exactly the
acyclic ones.
-/

namespace RecordSchema

namespace Schema

variable {graph : Entries (List String)}

/-- One node of the graph leads to another. -/
def Leads (graph : Entries (List String)) (node child : String) : Prop :=
  child ∈ (graph.get? node).getD []

/-- The list goes from its first node over distinct ones back to it. -/
def IsCircle (leads : String → String → Prop) (nodes : List String) : Prop :=
  ∃ first rest, nodes = first :: rest ++ [first] ∧ (first :: rest).Nodup ∧
    List.IsChain leads nodes

/-- A way through the graph, with its last step first, that comes to no node
twice. -/
structure IsWay (graph : Entries (List String)) (path : List String) : Prop where
  nodup : path.Nodup
  chain : path.IsChain fun child node => Leads graph node child

/-- The nodes of the list are distinct and lead only to nodes behind them. -/
def Settled (graph : Entries (List String)) : List String → Prop
  | [] => True
  | node :: rest => node ∉ rest ∧ (∀ child, Leads graph node child → child ∈ rest) ∧
      Settled graph rest

/-! ## Settled lists and circles -/

theorem Settled.mem_of_leads {done : List String} (h : Settled graph done) {node child : String}
    (hnode : node ∈ done) (hchild : Leads graph node child) : child ∈ done := by
  induction done with
  | nil => cases hnode
  | cons first rest ih =>
      obtain ⟨-, hfirst, hrest⟩ := h
      rcases List.mem_cons.mp hnode with rfl | hnode
      · exact List.mem_cons_of_mem _ (hfirst child hchild)
      · exact List.mem_cons_of_mem _ (ih hrest hnode)

theorem Settled.mem_of_transGen {done : List String} (h : Settled graph done)
    {node other : String} (hnode : node ∈ done)
    (hother : Relation.TransGen (Leads graph) node other) : other ∈ done := by
  induction hother with
  | single hstep => exact h.mem_of_leads hnode hstep
  | tail _ hstep ih => exact h.mem_of_leads ih hstep

/-- No node of a settled list leads back to itself. -/
theorem Settled.not_transGen_self {done : List String} (h : Settled graph done) {node : String}
    (hnode : node ∈ done) : ¬ Relation.TransGen (Leads graph) node node := by
  induction done with
  | nil => cases hnode
  | cons first rest ih =>
      obtain ⟨hfresh, hfirst, hrest⟩ := h
      rcases List.mem_cons.mp hnode with rfl | hnode
      · intro hback
        -- the first step leaves `node` for the rest of the list, which nothing leaves
        rcases Relation.TransGen.head'_iff.mp hback with ⟨child, hstep, hway⟩
        have hchild : child ∈ rest := hfirst child hstep
        rcases Relation.reflTransGen_iff_eq_or_transGen.mp hway with heq | hway
        · exact hfresh (heq ▸ hchild)
        · exact hfresh (hrest.mem_of_transGen hchild hway)
      · exact ih hrest hnode

theorem IsCircle.transGen_self {leads : String → String → Prop} {nodes : List String}
    (h : IsCircle leads nodes) : ∃ node, Relation.TransGen leads node node := by
  obtain ⟨first, rest, rfl, -, hchain⟩ := h
  refine ⟨first, ?_⟩
  have hlast : ∀ (node : String) (rest : List String),
      List.IsChain leads (node :: rest ++ [first]) → Relation.TransGen leads node first := by
    intro node rest
    induction rest generalizing node with
    | nil =>
        intro hchain
        exact .single (List.isChain_cons_cons.mp hchain).1
    | cons next rest ih =>
        intro hchain
        obtain ⟨hstep, hchain⟩ := List.isChain_cons_cons.mp hchain
        exact .head hstep (ih next hchain)
  exact hlast first rest hchain

/-- Coming again to a node of the way closes a circle. -/
theorem IsWay.isCircle_circle {path : List String} {node : String} (hway : IsWay graph path)
    (hstep : (node :: path).IsChain fun child node => Leads graph node child)
    (hnode : node ∈ path) : IsCircle (Leads graph) (circle node path) := by
  obtain ⟨front, back, rfl, hfront⟩ := List.eq_append_cons_of_mem hnode
  have htake : (front ++ node :: back).takeWhile (· != node) = front := by
    rw [List.takeWhile_append_of_pos fun other hother => ?_]
    · simp
    · simpa using fun heq : other = node => hfront (heq ▸ hother)
  have hnodup : (node :: front).Nodup := by
    have h := hway.nodup
    rw [List.nodup_append] at h
    exact List.nodup_cons.mpr ⟨hfront, h.1⟩
  have hround : (node :: front ++ [node]).IsChain fun child node => Leads graph node child := by
    apply hstep.prefix
    exact ⟨back, by simp⟩
  refine ⟨node, front.reverse, by rw [circle, htake], ?_, ?_⟩
  · simpa using hnodup
  · rw [circle, htake]
    have hreverse : node :: front.reverse ++ [node] = (node :: front ++ [node]).reverse := by simp
    rw [hreverse, List.isChain_reverse]
    exact hround

/-! ## What a search ends with -/

/-- A search on the way `path` from `nodes` has added to `done` all it came to. -/
structure Extends (graph : Entries (List String)) (path done nodes done' : List String) :
    Prop where
  settled : Settled graph done'
  grows : ∀ node ∈ done, node ∈ done'
  reaches : ∀ node ∈ nodes, node ∈ done'
  avoids : ∀ node ∈ path, node ∉ done'

/-- A search ends with a longer list or with a circle of the graph. -/
def EndsWell (graph : Entries (List String)) (path done nodes : List String) :
    Except SchemaError (List String) → Prop
  | .ok done' => Extends graph path done nodes done'
  | .error error => ∃ nodes, error = .cyclicType nodes ∧ IsCircle (Leads graph) nodes

/-- A search goes on from a longer list; a circle ends it. -/
theorem EndsWell.bind {path path' done done₀ nodes nodes' : List String}
    {first : Except SchemaError (List String)}
    {next : List String → Except SchemaError (List String)}
    (h : EndsWell graph path done nodes first)
    (hnext : ∀ done', Extends graph path done nodes done' →
      EndsWell graph path' done₀ nodes' (next done')) :
    EndsWell graph path' done₀ nodes' (first >>= next) := by
  cases first with
  | error error => exact h
  | ok done' => exact hnext done' h

/-- From where a search may start: `done` is settled, `path` is a way clear of it
that leads to each of `nodes`. -/
structure MaySearch (graph : Entries (List String)) (path done nodes : List String) : Prop where
  settled : Settled graph done
  avoids : ∀ node ∈ path, node ∉ done
  way : IsWay graph path
  leads : ∀ node ∈ nodes, (node :: path).IsChain fun child node => Leads graph node child

/-- A node whose children are done with is done with itself. -/
theorem Extends.close {path done done' : List String} {node : String}
    (h : Extends graph (node :: path) done ((graph.get? node).getD []) done')
    (hpath : node ∉ path) : Extends graph path done [node] (node :: done') where
  settled := ⟨h.avoids node List.mem_cons_self, h.reaches, h.settled⟩
  grows other hother := List.mem_cons_of_mem _ (h.grows other hother)
  reaches other hother := by
    rw [List.mem_singleton.mp hother]
    exact List.mem_cons_self
  avoids other hother := by
    rw [List.mem_cons, not_or]
    exact ⟨fun heq => hpath (heq ▸ hother), h.avoids other (List.mem_cons_of_mem _ hother)⟩

/-- A search from a node may go on to its children. -/
theorem MaySearch.enter {path done : List String} {node : String}
    (h : MaySearch graph path done [node]) (hdone : node ∉ done) (hpath : node ∉ path) :
    MaySearch graph (node :: path) done ((graph.get? node).getD []) where
  settled := h.settled
  avoids other hother := by
    rcases List.mem_cons.mp hother with rfl | hother
    · exact hdone
    · exact h.avoids other hother
  way := ⟨List.nodup_cons.mpr ⟨hpath, h.way.nodup⟩, h.leads node List.mem_cons_self⟩
  leads child hchild :=
    List.isChain_cons_cons.mpr ⟨hchild, h.leads node List.mem_cons_self⟩

/-- What one node has added is kept by the search from those behind it. -/
theorem Extends.append {path done done' done'' : List String} {node : String}
    {rest : List String} (h : Extends graph path done [node] done')
    (h' : Extends graph path done' rest done'') :
    Extends graph path done (node :: rest) done'' where
  settled := h'.settled
  grows other hother := h'.grows other (h.grows other hother)
  reaches other hother := by
    rcases List.mem_cons.mp hother with rfl | hother
    · exact h'.grows other (h.reaches other List.mem_cons_self)
    · exact h'.reaches other hother
  avoids := h'.avoids

theorem search_endsWell (graph : Entries (List String)) :
    (∀ path done node, MaySearch graph path done [node] →
      EndsWell graph path done [node] (visit graph path done node)) ∧
    ∀ path done nodes, MaySearch graph path done nodes →
      EndsWell graph path done nodes (visitAll graph path done nodes) := by
  refine visit.mutual_induct graph
    (fun path done node => MaySearch graph path done [node] →
      EndsWell graph path done [node] (visit graph path done node))
    (fun path done nodes => MaySearch graph path done nodes →
      EndsWell graph path done nodes (visitAll graph path done nodes)) ?_ ?_ ?_ ?_ ?_ ?_
  · -- the node is done with already
    intro path done node hdone hmay
    rw [visit, if_pos hdone]
    refine ⟨hmay.settled, fun _ h => h, fun other hother => ?_, hmay.avoids⟩
    rw [List.mem_singleton.mp hother]
    exact List.contains_iff_mem.mp hdone
  · -- the node is on the way
    intro path done node hdone hpath hmay
    rw [visit, if_neg hdone, dif_pos hpath]
    exact ⟨_, rfl, hmay.way.isCircle_circle (hmay.leads node List.mem_cons_self)
      (List.contains_iff_mem.mp hpath)⟩
  · -- the node is not one of the graph's
    intro path done node hdone hpath hnone hmay
    rw [visit, if_neg hdone, dif_neg hpath]
    split
    next =>
      rw [List.contains_iff_mem] at hdone hpath
      have henter := hmay.enter hdone hpath
      refine Extends.close ⟨henter.settled, fun _ h => h, ?_, henter.avoids⟩ hpath
      simp [hnone]
    next children hsome => simp [hnone] at hsome
  · -- the search goes on to the node's children
    intro path done node hdone hpath children hsome ih hmay
    rw [visit, if_neg hdone, dif_neg hpath]
    split
    next hnone => simp [hsome] at hnone
    next children' hsome' =>
      rw [List.contains_iff_mem] at hdone hpath
      have henter := hmay.enter hdone hpath
      obtain rfl : children = children' := by simpa [hsome] using hsome'
      rw [hsome] at henter
      refine (ih henter).bind fun done' hdone' => ?_
      exact Extends.close (by rwa [hsome]) hpath
  · intro path done hmay
    rw [visitAll]
    exact ⟨hmay.settled, fun _ h => h, fun _ h => (List.not_mem_nil h).elim, hmay.avoids⟩
  · intro path done node rest ih ihrest hmay
    rw [visitAll]
    have hnode := ih ⟨hmay.settled, hmay.avoids, hmay.way, fun other hother => by
      rw [List.mem_singleton.mp hother]
      exact hmay.leads node List.mem_cons_self⟩
    refine hnode.bind fun done' hdone' => ?_
    have hrest := ihrest done' ⟨hdone'.settled, hdone'.avoids, hmay.way, fun other hother =>
      hmay.leads other (List.mem_cons_of_mem _ hother)⟩
    cases hall : visitAll graph path done' rest with
    | error error =>
        rw [hall] at hrest
        exact hrest
    | ok done'' =>
        rw [hall] at hrest
        exact hdone'.append hrest

/-! ## The check of a schema -/

/-- The search graph of a schema has an edge where one type refers to another. -/
theorem leads_graph (schema : Schema) : Leads schema.graph = schema.RefersTo := by
  funext owner target
  rw [Leads, graph, Entries.get?_map, RefersTo]
  cases hget : schema.get? owner with
  | none => simp
  | some properties => simp [PropertySet.mem_targets_iff]

theorem names_graph (schema : Schema) : schema.graph.names = schema.names := by
  simp [graph, Entries.names, Function.comp_def]

/-- The search passes a schema without circles; if it fails, it has found one. -/
theorem checkCircles_cases (schema : Schema) :
    (schema.checkCircles = .ok () ∧ schema.Acyclic) ∨
    ∃ nodes, schema.checkCircles = .error (.cyclicType nodes) ∧
      IsCircle schema.RefersTo nodes := by
  have hstart : MaySearch schema.graph [] [] schema.graph.names :=
    ⟨trivial, fun _ h => (List.not_mem_nil h).elim, ⟨List.nodup_nil, .nil⟩, fun _ _ => .singleton _⟩
  have hends := (search_endsWell schema.graph).2 [] [] schema.graph.names hstart
  rw [checkCircles]
  cases hsearch : visitAll schema.graph [] [] schema.graph.names with
  | error error =>
      rw [hsearch] at hends
      obtain ⟨nodes, rfl, hcircle⟩ := hends
      exact .inr ⟨nodes, rfl, leads_graph schema ▸ hcircle⟩
  | ok done =>
      rw [hsearch] at hends
      refine .inl ⟨rfl, fun name hback => ?_⟩
      obtain ⟨_, hstep, -⟩ := Relation.TransGen.head'_iff.mp hback
      have hname : name ∈ done := by
        apply hends.reaches
        rw [names_graph]
        exact hstep.mem_names
      rw [← leads_graph] at hback
      exact hends.settled.not_transGen_self hname hback

theorem checkCircles_of_acyclic {schema : Schema} (h : schema.Acyclic) :
    schema.checkCircles = .ok () := by
  rcases checkCircles_cases schema with ⟨hok, -⟩ | ⟨nodes, -, hcircle⟩
  · exact hok
  · obtain ⟨name, hback⟩ := hcircle.transGen_self
    exact absurd hback (h name)

theorem checkCircles_of_not_acyclic {schema : Schema} (h : ¬ schema.Acyclic) :
    ∃ nodes, schema.checkCircles = .error (.cyclicType nodes) := by
  rcases checkCircles_cases schema with ⟨-, hacyclic⟩ | ⟨nodes, hfail, -⟩
  · exact absurd hacyclic h
  · exact ⟨nodes, hfail⟩

end Schema

end RecordSchema
