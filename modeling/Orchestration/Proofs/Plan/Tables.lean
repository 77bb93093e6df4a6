import Orchestration.Proofs.Plan.Forest

/-! # Links and nodes in tables

One pass over the edges can enter each new link into two tables, a producer for each node and the
consumers of each node, and one pass over the nodes can enter their positions. Where names are
distinct and producers sole, what is read from the tables is what the lists of links and nodes
say. -/

namespace Orchestration

open List

/-- What a pass over edges stores: the links that it has seen, the producer that it has entered last
for each node, and the consumers that it has entered for each. -/
structure LinkTables where
  seen : List Link
  producers : Entries String String
  consumers : Entries String (List String)

namespace LinkTables

def empty : LinkTables := ⟨[], [], []⟩

def consumersOf (t : LinkTables) (id : String) : List String := (t.consumers.lookup id).getD []

/-- Enters an edge unless its link has been seen. -/
def enter (t : LinkTables) (e : Edge) : LinkTables :=
  if (e.source, e.target) ∈ t.seen then t
  else
    { seen := (e.source, e.target) :: t.seen
      producers := t.producers.set e.target e.source
      consumers := t.consumers.set e.source (t.consumersOf e.source ++ [e.target]) }

def ofEdges (edges : List Edge) : LinkTables := edges.foldl enter empty

theorem ofEdges_concat (edges : List Edge) (e : Edge) :
    ofEdges (edges ++ [e]) = (ofEdges edges).enter e := by
  rw [ofEdges, foldl_append]
  rfl

/-- Of the edges so far, the tables hold every link once. -/
theorem ofEdges_spec (edges : List Edge) :
    let links := (edges.map fun e => (e.source, e.target)).eraseDups
    (∀ l, l ∈ (ofEdges edges).seen ↔ l ∈ links) ∧
    (∀ id, (ofEdges edges).producers.lookup id = Link.source? links.reverse id) ∧
    ∀ id, (ofEdges edges).consumersOf id = Link.targets links id := by
  induction edges using List.reverseRecOn with
  | nil => simp [ofEdges, empty, consumersOf, Link.source?, Link.targets]
  | append_singleton edges e ih =>
      dsimp only at ih ⊢
      obtain ⟨hseen, hproducers, hconsumers⟩ := ih
      rw [ofEdges_concat, map_append, map_singleton, Link.eraseDups_concat, enter]
      by_cases hnew : (e.source, e.target) ∈ (ofEdges edges).seen
      · have hold := mem_eraseDups.mp ((hseen _).mp hnew)
        rw [if_pos hnew, if_pos hold, append_nil]
        exact ⟨hseen, hproducers, hconsumers⟩
      · have hold := mt (fun h => (hseen _).mpr (mem_eraseDups.mpr h)) hnew
        rw [if_neg hnew, if_neg hold]
        refine ⟨fun l => ?_, fun id => ?_, fun id => ?_⟩
        · simp [hseen, or_comm]
        · rw [Entries.lookup_set, hproducers]
          by_cases hid : id = e.target
          · simp [hid, Link.source?]
          · simp [hid, Ne.symm hid, Link.source?]
        · rw [consumersOf, Entries.lookup_set]
          by_cases hid : id = e.source
          · simp [hid, hconsumers, Link.targets]
          · have hsame := hconsumers id
            rw [consumersOf] at hsame
            simp [hid, Ne.symm hid, hsame, Link.targets]

end LinkTables

namespace Draft

def linkTables (d : Draft) : LinkTables := .ofEdges d.edges

theorem consumersOf_linkTables (d : Draft) (id : String) :
    d.linkTables.consumersOf id = Link.targets d.links id :=
  (LinkTables.ofEdges_spec d.edges).2.2 id

/-- With sole producers the producer that was entered last is the one that was entered first. -/
theorem lookup_producers_linkTables {d : Draft} (h : SoleProducers d.edges) (id : String) :
    d.linkTables.producers.lookup id = Link.source? d.links id := by
  have hsole : Link.Sole d.links := by
    intro a ha b hb
    exact (sole_links_iff d.edges).mpr h a (by simpa [links] using ha) b (by simpa [links] using hb)
  have hreverse : Link.Sole d.links.reverse := by
    intro a ha b hb
    exact hsole a (by simpa using ha) b (by simpa using hb)
  rw [linkTables, (LinkTables.ofEdges_spec d.edges).2.1]
  ext producer
  rw [Link.source?_eq_some_iff hsole]
  exact (Link.source?_eq_some_iff hreverse _ _).trans mem_reverse

/-- The position of each node, as a pass over the nodes enters it. -/
def positions (d : Draft) : Entries String Nat :=
  d.nodes.zipIdx.foldl (fun t x => t.set x.1.id x.2) []

theorem lookup_positions {d : Draft} (h : d.ids.Nodup) (id : String) :
    d.positions.lookup id = d.nodes.findIdx? (·.id = id) := by
  obtain ⟨nodes, edges⟩ := d
  change (nodes.map (·.id)).Nodup at h
  simp only [positions]
  induction nodes using List.reverseRecOn with
  | nil => rfl
  | append_singleton nodes n ih =>
      rw [map_append, map_singleton] at h
      have hn : ∀ m ∈ nodes, m.id ≠ n.id := by
        intro m hm he
        exact (nodup_append.mp h).2.2 m.id (mem_map_of_mem hm) n.id (by simp) he
      rw [zipIdx_append, foldl_append, findIdx?_append, ← ih h.of_append_left]
      simp only [zipIdx_cons, zipIdx_nil, foldl_cons, foldl_nil, Entries.lookup_set, Nat.zero_add]
      by_cases hid : id = n.id
      · have hnone : nodes.findIdx? (·.id = id) = none := by
          simpa [findIdx?_eq_none_iff, hid] using hn
        rw [ih h.of_append_left, hnone]
        simp [hid]
      · simp [hid, Ne.symm hid, findIdx?_cons]

/-- A node is found by its position. -/
theorem bind_lookup_positions {d : Draft} (h : d.ids.Nodup) (id : String) :
    (d.positions.lookup id).bind (d.nodes[·]?) = d.node? id := by
  rw [lookup_positions h, node?, find?_eq_bind_findIdx?_getElem?]

end Draft

end Orchestration
