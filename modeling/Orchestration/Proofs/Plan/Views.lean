import Orchestration.Proofs.Plan.Levels

/-! # What a plan answers

A plan that was built answers questions about nodes, producers, consumers, roots and the order of
its nodes. The answers are those of one forest, the one that the edges of its draft describe. -/

namespace Orchestration

open List Relation

/-! ## Links in the order of their first edges -/

namespace Link

/-- Without later repetitions, links stand in the order in which they first occur. -/
theorem pairwise_eraseDups (links : List Link) :
    links.eraseDups.Pairwise fun a b => links.idxOf a < links.idxOf b := by
  induction links using List.reverseRecOn with
  | nil => exact .nil
  | append_singleton links l ih =>
      have hold : ∀ a ∈ links.eraseDups, (links ++ [l]).idxOf a = links.idxOf a := fun a ha =>
        idxOf_append_of_mem (mem_eraseDups.mp ha)
      have hsame : links.eraseDups.Pairwise fun a b =>
          (links ++ [l]).idxOf a < (links ++ [l]).idxOf b := by
        refine ih.imp_of_mem fun ha hb hlt => ?_
        rwa [hold _ ha, hold _ hb]
      rw [eraseDups_concat]
      split
      · simpa using hsame
      · rename_i hnew
        refine pairwise_append.mpr ⟨hsame, pairwise_singleton _ _, fun a ha b hb => ?_⟩
        obtain rfl := mem_singleton.mp hb
        rw [hold a ha, idxOf_append_of_notMem hnew]
        exact (idxOf_lt_length_of_mem (mem_eraseDups.mp ha)).trans_le (Nat.le_add_right _ _)

end Link

namespace Draft

/-- The position of the first edge from one node to another. -/
def firstEdge (d : Draft) (producer consumer : String) : Nat :=
  d.edges.findIdx fun e => e.source = producer ∧ e.target = consumer

theorem idxOf_link (d : Draft) (producer consumer : String) :
    (d.edges.map fun e => (e.source, e.target)).idxOf (producer, consumer) =
      d.firstEdge producer consumer := by
  rw [idxOf, findIdx_map, firstEdge]
  congr 1
  funext e
  rw [Function.comp_apply, Bool.eq_iff_iff]
  simp

theorem pairwise_targets_links (d : Draft) (producer : String) :
    (Link.targets d.links producer).Pairwise fun c c' =>
      d.firstEdge producer c < d.firstEdge producer c' := by
  have hlinks := (Link.pairwise_eraseDups (d.edges.map fun e => (e.source, e.target))).filter
    (·.1 = producer)
  refine pairwise_map.mpr (hlinks.imp_of_mem ?_)
  rintro ⟨source, c⟩ ⟨source', c'⟩ ha hb hlt
  obtain ⟨-, rfl⟩ : _ ∧ source = producer := by simpa using ha
  obtain ⟨-, rfl⟩ : _ ∧ source' = source := by simpa using hb
  rwa [idxOf_link, idxOf_link] at hlt

/-! ## The forest of a draft -/

/-- The plan answers like the forest that the draft describes. -/
structure Forest (d : Draft) (p : Plan) : Prop where
  /-- The node of a name is the one that was declared under it. -/
  node : ∀ id n, p.node? id = some n ↔ n ∈ d.nodes ∧ n.id = id
  producer : ∀ producer consumer,
    p.parent? consumer = some producer ↔ consumer ∈ p.dependents producer
  edge : ∀ producer consumer, consumer ∈ p.dependents producer ↔ d.Depends producer consumer
  /-- Each consumer is listed once, where the first edge to it stands. -/
  once : ∀ producer, (p.dependents producer).Nodup
  first : ∀ producer, (p.dependents producer).Pairwise fun c c' =>
    d.firstEdge producer c < d.firstEdge producer c'
  isRoot : ∀ id, p.isRoot id = true ↔ id ∈ d.ids ∧ ∀ producer, ¬ d.Depends producer id
  roots : p.roots = d.nodes.filter fun n => d.edges.all (·.target ≠ n.id)
  /-- Going from node to producer comes to a root in fewer steps than there are nodes. -/
  ascent : ∀ id ∈ d.ids, ∃ k < p.nodes.length, p.Distance id k ∧ ∀ j, p.Distance id j → j = k
  oneRoot : ∀ id ∈ d.ids, ∃! root, p.isRoot root = true ∧
    ReflTransGen (fun producer consumer => p.parent? consumer = some producer) root id
  order : p.order.Perm d.ids ∧ p.order.Nodup
  levels : p.order.Pairwise (NoFurther p.Distance)
  /-- The answers are those of tables that are filled by passes over nodes and edges. -/
  positions : ∀ id, p.node? id = (d.positions.lookup id).bind (p.nodes[·]?)
  producers : ∀ id, p.parent? id = d.linkTables.producers.lookup id
  consumers : ∀ id, p.dependents id = d.linkTables.consumersOf id

/-- What was built from a draft answers like the forest that the draft describes. -/
theorem forest_of_build {d : Draft} {p : Plan} (h : d.build = .ok p) : d.Forest p := by
  have hplan : p.Built := ⟨d, h⟩
  obtain ⟨hd, -, hnodes, -, hlinks⟩ := (d.build_eq_ok_iff p).mp h
  have hids : p.ids = d.ids := by rw [Plan.ids, hnodes, ids]
  have hedge : ∀ producer consumer,
      consumer ∈ p.dependents producer ↔ d.Depends producer consumer := by
    intro producer consumer
    rw [Plan.dependents, hlinks, Link.mem_targets, mem_links]
  have hnone : ∀ id, (p.parent? id).isNone = true ↔ ∀ producer, ¬ d.Depends producer id := by
    intro id
    simp only [hplan.isNone_parent?_iff, hedge]
  constructor
  case node => exact fun id n => hnodes ▸ hplan.node?_eq_some_iff id n
  case producer => exact fun producer consumer => (hplan.mem_dependents_iff _ _).symm
  case edge => exact hedge
  case once => exact hplan.nodup_dependents
  case first =>
    intro producer
    rw [Plan.dependents, hlinks]
    exact d.pairwise_targets_links producer
  case isRoot =>
    intro id
    rw [Plan.isRoot, Bool.and_eq_true, hnone, ← hids]
    simp [Plan.contains, Plan.ids]
  case roots =>
    rw [Plan.roots, hnodes]
    refine filter_congr fun n _ => Bool.eq_iff_iff.mpr ((hnone n.id).trans ?_)
    simp only [Depends, all_eq_true, decide_eq_true_eq]
    constructor
    · exact fun hall e he htarget => hall e.source ⟨e, he, rfl, htarget⟩
    · rintro hall _ ⟨e, he, -, htarget⟩
      exact hall e he htarget
  case ascent => exact fun id hid => hplan.ascent (hids ▸ hid)
  case oneRoot => exact fun id hid => hplan.existsUnique_root (hids ▸ hid)
  case order =>
    have hperm := hplan.order_spec.1
    exact ⟨hids ▸ hperm, hperm.nodup_iff.mpr hplan.nodup_ids⟩
  case levels => exact hplan.level_order.2
  case positions =>
    intro id
    rw [Plan.node?, hnodes, bind_lookup_positions hd.distinct, node?]
  case producers =>
    intro id
    rw [Plan.parent?, hlinks, lookup_producers_linkTables hd.soleProducers]
  case consumers =>
    intro id
    rw [Plan.dependents, hlinks, consumersOf_linkTables]

/-- Four nodes below one root, which was declared third; one edge stands twice. -/
def branching : Draft where
  nodes := ["a", "b", "c", "d"].map fun id => ⟨id, .text, .text, .alwaysFail 0 id "closed"⟩
  edges := [.between "c" "b", .between "b" "d", .between "c" "a", .between "c" "b"]

theorem forest_of_build_branching : ∃ p, branching.build = .ok p ∧
    p.order = ["c", "b", "a", "d"] ∧ branching.Forest p :=
  ⟨⟨branching.nodes, branching.edges, [("c", "b"), ("b", "d"), ("c", "a")], ["c", "b", "a", "d"]⟩,
    by rfl, rfl, forest_of_build (by rfl)⟩

end Draft

end Orchestration
