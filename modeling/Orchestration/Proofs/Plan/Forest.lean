import Orchestration.Proofs.Plan.Validation

/-! # Plans are forests

What was built has distinct nodes, at most one producer for each, and no node among its own
producers' producers. -/

namespace Orchestration

namespace Plan

/-- The plan was built from some draft. -/
def Built (p : Plan) : Prop := ∃ d : Draft, d.build = .ok p

def ids (p : Plan) : List String := p.nodes.map (·.id)

/-- The nodes that take what a node yields, in the order of the first edges to them. -/
def consumers (p : Plan) (id : String) : List Node := (p.dependents id).filterMap p.node?

namespace Built

variable {p : Plan}

theorem exists_draft (h : p.Built) :
    ∃ d : Draft, d.WellFormed ∧ topologicalOrder d.ids (Link.targets d.links) = .ok p.order ∧
      p.nodes = d.nodes ∧ p.edges = d.edges ∧ p.links = d.links := by
  obtain ⟨d, hd⟩ := h
  exact ⟨d, (d.build_eq_ok_iff p).mp hd⟩

theorem nodup_ids (h : p.Built) : p.ids.Nodup := by
  obtain ⟨d, hd, -, hnodes, -⟩ := h.exists_draft
  rw [ids, hnodes]
  exact hd.distinct

theorem node?_eq_some_iff (h : p.Built) (id : String) (n : Node) :
    p.node? id = some n ↔ n ∈ p.nodes ∧ n.id = id :=
  Draft.find?_id_eq_some_iff h.nodup_ids id n

theorem eq_of_id_eq (h : p.Built) {n m : Node} (hn : n ∈ p.nodes) (hm : m ∈ p.nodes)
    (hid : n.id = m.id) : n = m :=
  List.inj_on_of_nodup_map h.nodup_ids hn hm hid

theorem sole_links (h : p.Built) : Link.Sole p.links := by
  obtain ⟨d, hd, -, -, -, hlinks⟩ := h.exists_draft
  intro a ha b hb
  rw [hlinks, Draft.links, List.mem_eraseDups] at ha hb
  exact (Draft.sole_links_iff d.edges).mpr hd.soleProducers a ha b hb

/-! ## Producers and consumers -/

theorem mem_dependents_iff (h : p.Built) (producer consumer : String) :
    consumer ∈ p.dependents producer ↔ p.parent? consumer = some producer := by
  rw [dependents, parent?, Link.mem_targets, Link.source?_eq_some_iff h.sole_links]

theorem isNone_parent?_iff (h : p.Built) (id : String) :
    (p.parent? id).isNone = true ↔ ∀ producer, id ∉ p.dependents producer := by
  simp [h.mem_dependents_iff, Option.eq_none_iff_forall_ne_some]

theorem nodup_dependents (h : p.Built) (producer : String) : (p.dependents producer).Nodup := by
  obtain ⟨d, -, -, -, -, hlinks⟩ := h.exists_draft
  rw [dependents, hlinks]
  exact Link.nodup_targets d.nodup_links producer

theorem mem_ids_of_parent? (h : p.Built) {producer consumer : String}
    (hparent : p.parent? consumer = some producer) : producer ∈ p.ids ∧ consumer ∈ p.ids := by
  obtain ⟨d, hd, -, hnodes, -, hlinks⟩ := h.exists_draft
  rw [← h.mem_dependents_iff, dependents, hlinks] at hparent
  rw [ids, hnodes]
  exact Draft.targets_joined hd.joined producer consumer hparent

theorem mem_consumers_iff (h : p.Built) (producer : String) (n : Node) :
    n ∈ p.consumers producer ↔ n ∈ p.nodes ∧ p.parent? n.id = some producer := by
  simp only [consumers, List.mem_filterMap, h.node?_eq_some_iff, h.mem_dependents_iff]
  grind

theorem map_id_consumers (h : p.Built) (producer : String) :
    (p.consumers producer).map (·.id) = p.dependents producer := by
  have hall : ∀ id ∈ p.dependents producer, (p.node? id).map (·.id) = some id := by
    intro id hid
    obtain ⟨n, hn, rfl⟩ := List.mem_map.mp
      (h.mem_ids_of_parent? ((h.mem_dependents_iff _ _).mp hid)).2
    rw [(h.node?_eq_some_iff n.id n).mpr ⟨hn, rfl⟩, Option.map_some]
  rw [consumers, List.map_filterMap, List.filterMap_congr hall, List.filterMap_some]

theorem nodup_map_id_consumers (h : p.Built) (producer : String) :
    ((p.consumers producer).map (·.id)).Nodup := by
  rw [h.map_id_consumers]
  exact h.nodup_dependents producer

theorem exists_consumer_iff (h : p.Built) (producer id : String) :
    (∃ n ∈ p.consumers producer, n.id = id) ↔ p.parent? id = some producer := by
  rw [← h.mem_dependents_iff, ← h.map_id_consumers, List.mem_map]

/-- What a producer yields has the kind that its consumer takes. -/
theorem output_eq_input (h : p.Built) {n m : Node} (hn : n ∈ p.nodes) (hm : m ∈ p.nodes)
    (hparent : p.parent? m.id = some n.id) : n.output = m.input := by
  obtain ⟨d, hd, -, hnodes, -, hlinks⟩ := h.exists_draft
  rw [← h.mem_dependents_iff, dependents, Link.mem_targets, hlinks, Draft.mem_links] at hparent
  obtain ⟨e, he, hsource, htarget⟩ := hparent
  exact hd.fits e he n (hnodes ▸ hn) m (hnodes ▸ hm) hsource.symm htarget.symm

/-! ## The order -/

theorem order_spec (h : p.Built) :
    p.order.Perm p.ids ∧ ProducersFirst p.dependents [] p.order := by
  obtain ⟨d, hd, horder, hnodes, -, hlinks⟩ := h.exists_draft
  have hspec := topologicalOrder_spec hd.distinct (Link.nodup_targets d.nodup_links)
    (Draft.targets_joined hd.joined)
  rw [horder] at hspec
  have hdependents : p.dependents = Link.targets d.links := by
    funext id
    rw [dependents, hlinks]
  rwa [ids, hnodes, hdependents]

theorem idxOf_lt (h : p.Built) {producer consumer : String}
    (hparent : p.parent? consumer = some producer) :
    p.order.idxOf producer < p.order.idxOf consumer := by
  have hconsumer := h.order_spec.1.mem_iff.mpr (h.mem_ids_of_parent? hparent).2
  rw [← h.mem_dependents_iff] at hparent
  exact (h.order_spec.2.idxOf_lt hconsumer hparent).resolve_left (by simp)

/-- Going from node to producer comes to an end. -/
theorem wellFounded_parent? (h : p.Built) :
    WellFounded fun producer consumer => p.parent? consumer = some producer :=
  Subrelation.wf h.idxOf_lt (InvImage.wf (fun id => p.order.idxOf id) wellFounded_lt)

/-- Some node has no producer. -/
theorem roots_ne_nil (h : p.Built) (hnodes : p.nodes ≠ []) : p.roots ≠ [] := by
  obtain ⟨n, hn⟩ := List.exists_mem_of_ne_nil p.nodes hnodes
  obtain ⟨id, hid, hmin⟩ := h.wellFounded_parent?.has_min {id | id ∈ p.ids}
    ⟨n.id, List.mem_map_of_mem hn⟩
  obtain ⟨m, hm, rfl⟩ := List.mem_map.mp hid
  have hroot : p.parent? m.id = none := by
    by_contra hparent
    obtain ⟨producer, hproducer⟩ := Option.ne_none_iff_exists'.mp hparent
    exact hmin producer (h.mem_ids_of_parent? hproducer).1 hproducer
  exact List.ne_nil_of_mem (List.mem_filter.mpr ⟨hm, by simp [hroot]⟩)

end Built

end Plan

end Orchestration
