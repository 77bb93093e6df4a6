import Mathlib.Data.Finset.Card
import Mathlib.Data.List.Chain
import Mathlib.Order.Bounds.Basic
import Orchestration.Proofs.Plan.Levels

/-! # Statistics of a plan

One pass over the order of a plan gives each node its depth, since the order has every producer
before its consumers. The greatest depth is the length of the longest chain of edges, and the
distinct edges are as many as the nodes that are no roots. -/

namespace Orchestration

open List

/-- The greatest number met by a scan, or the one that it starts from. -/
theorem isGreatest_foldl_max (n : Nat) (ns : List Nat) :
    IsGreatest {m | m ∈ n :: ns} (ns.foldl max n) := by
  induction ns generalizing n with
  | nil => exact ⟨mem_cons_self, fun m hm => (mem_singleton.mp hm).le⟩
  | cons k ns ih =>
      obtain ⟨hmem, hgreatest⟩ := ih (max n k)
      rw [foldl_cons]
      constructor
      · rcases mem_cons.mp hmem with heq | hlater
        · rcases max_choice n k with hn | hk
          · exact mem_cons.mpr (.inl (heq.trans hn))
          · exact mem_cons_of_mem n (mem_cons.mpr (.inl (heq.trans hk)))
        · exact mem_cons_of_mem n (mem_cons_of_mem k hlater)
      · intro m hm
        have hstart : max n k ≤ ns.foldl max (max n k) := hgreatest mem_cons_self
        rcases mem_cons.mp hm with rfl | hm
        · exact (le_max_left m k).trans hstart
        · rcases mem_cons.mp hm with rfl | hm
          · exact (le_max_right n m).trans hstart
          · exact hgreatest (mem_cons_of_mem _ hm)

namespace Plan

variable {p : Plan}

/-! ## Depths -/

theorem distance_of_root {id : String} (hid : id ∈ p.ids) (hnone : p.parent? id = none) :
    p.Distance id 0 := by
  obtain ⟨n, hn, rfl⟩ := mem_map.mp hid
  exact ⟨n.id, rfl, (p.isRoot_iff _).mpr (mem_map_of_mem (mem_filter.mpr ⟨hn, by simp [hnone]⟩))⟩

theorem Distance.consumer {producer consumer : String} {k : Nat} (h : p.Distance producer k)
    (hparent : p.parent? consumer = some producer) : p.Distance consumer (k + 1) := by
  obtain ⟨root, hk, hroot⟩ := h
  exact ⟨root, (ancestor?_succ_eq_some_iff _ _ _).mpr ⟨producer, hparent, hk⟩, hroot⟩

/-- The depths of nodes, the latest first, are their distances from their roots. -/
structure Measured (p : Plan) (done : List String) (known : List (String × Nat)) : Prop where
  names : known.map (·.1) = done
  distances : ∀ e ∈ known, p.Distance e.1 e.2

/-- After its producer a node gets the right depth. -/
theorem Measured.next (h : p.Built) {done : List String} {known : List (String × Nat)}
    (hknown : p.Measured done known) {id : String} (hid : id ∈ p.ids)
    (hproducers : ∀ producer, id ∈ p.dependents producer → producer ∈ done) :
    ∃ k, p.Distance id k ∧
      ∀ rest, p.depths known (id :: rest) = p.depths ((id, k) :: known) rest := by
  refine ⟨_, ?_, fun rest => rfl⟩
  cases hparent : p.parent? id with
  | none => exact distance_of_root hid hparent
  | some producer =>
      have hdone := hproducers producer ((h.mem_dependents_iff producer id).mpr hparent)
      rw [← hknown.names, mem_map] at hdone
      obtain ⟨⟨producer, k⟩, hmem, rfl⟩ := hdone
      cases hlookup : known.lookup producer with
      | none => exact absurd (lookup_eq_none_iff.mp hlookup _ hmem) (by simp)
      | some d =>
          obtain ⟨before, after, rfl, -⟩ := lookup_eq_some_iff.mp hlookup
          have hdistance : p.Distance producer d := hknown.distances (producer, d) (by simp)
          simpa [hlookup] using hdistance.consumer hparent

theorem Measured.depths (h : p.Built) {done rest : List String} {known : List (String × Nat)}
    (hknown : p.Measured done known) (hrest : ∀ id ∈ rest, id ∈ p.ids)
    (hfirst : ProducersFirst p.dependents done rest) :
    p.Measured (rest.reverse ++ done) (p.depths known rest) := by
  induction rest generalizing done known with
  | nil => exact hknown
  | cons id rest ih =>
      obtain ⟨hproducers, hlater⟩ := hfirst
      obtain ⟨k, hk, hdepths⟩ := hknown.next h (hrest id mem_cons_self) hproducers
      have hnext : p.Measured (id :: done) ((id, k) :: known) :=
        ⟨by rw [map_cons, hknown.names], forall_mem_cons.mpr ⟨hk, hknown.distances⟩⟩
      rw [hdepths, reverse_cons, append_assoc]
      exact ih hnext (fun id' hid' => hrest id' (mem_cons_of_mem id hid')) hlater

/-- The pass over the order measures all nodes. -/
theorem Built.measured (h : p.Built) : p.Measured p.order.reverse (p.depths [] p.order) := by
  obtain ⟨hperm, hfirst⟩ := h.order_spec
  have hempty : p.Measured [] [] := ⟨rfl, by simp⟩
  simpa using hempty.depths h (fun id hid => hperm.mem_iff.mp hid) hfirst

/-- The greatest depth is the greatest distance of a node from its root. -/
theorem Built.maxDepth_spec (h : p.Built) :
    IsGreatest {k | k = 0 ∨ ∃ id ∈ p.ids, p.Distance id k} p.stats.maxDepth := by
  obtain ⟨hnames, hdistances⟩ := h.measured
  have hmeasured : ∀ id ∈ p.ids, ∃ k, (id, k) ∈ p.depths [] p.order := by
    intro id hid
    have hmem := mem_reverse.mpr (h.order_spec.1.mem_iff.mpr hid)
    rw [← hnames, mem_map] at hmem
    obtain ⟨⟨id, k⟩, hmem, rfl⟩ := hmem
    exact ⟨k, hmem⟩
  obtain ⟨hmem, hgreatest⟩ := isGreatest_foldl_max 0 ((p.depths [] p.order).map (·.2))
  constructor
  · rcases mem_cons.mp hmem with hzero | hdepth
    · exact .inl hzero
    · obtain ⟨e, he, heq⟩ := mem_map.mp hdepth
      have hname : e.1 ∈ p.order.reverse := hnames ▸ mem_map_of_mem he
      have hid := h.order_spec.1.mem_iff.mp (mem_reverse.mp hname)
      have hdistance : p.Distance e.1 p.stats.maxDepth := by
        rw [Plan.stats, ← heq]
        exact hdistances e he
      exact .inr ⟨e.1, hid, hdistance⟩
  · rintro k (rfl | ⟨id, hid, hk⟩)
    · exact Nat.zero_le _
    · obtain ⟨d, hd⟩ := hmeasured id hid
      obtain rfl := h.distances.unique id k d hk (hdistances _ hd)
      exact hgreatest (mem_cons_of_mem 0 (mem_map_of_mem hd))

/-! ## Roots and links -/

/-- Each node is a root or the target of one link. -/
theorem Built.roots_add_links (h : p.Built) :
    p.roots.length + p.links.length = p.nodes.length := by
  have hsole := h.sole_links
  have hnodup : (p.links.map (·.2)).Nodup := by
    obtain ⟨d, -, -, -, -, hlinks⟩ := h.exists_draft
    have hlinksNodup : p.links.Nodup := hlinks ▸ d.nodup_links
    refine hlinksNodup.map_on fun a ha b hb heq => ?_
    exact Prod.ext (hsole a ha b hb heq) heq
  have hperm : p.links.map (·.2) ~
      (p.nodes.filter fun n => !(p.parent? n.id).isNone).map (·.id) := by
    refine (perm_ext_iff_of_nodup hnodup (h.nodup_ids.sublist (filter_sublist.map _))).mpr ?_
    intro id
    have hlink : id ∈ p.links.map (·.2) ↔ ∃ producer, p.parent? id = some producer := by
      simp [parent?, Link.source?_eq_some_iff hsole]
    rw [hlink]
    constructor
    · rintro ⟨producer, hparent⟩
      obtain ⟨n, hn, rfl⟩ := mem_map.mp (h.mem_ids_of_parent? hparent).2
      exact mem_map_of_mem (mem_filter.mpr ⟨hn, by simp [hparent]⟩)
    · intro hid
      obtain ⟨n, hn, rfl⟩ := mem_map.mp hid
      exact Option.isSome_iff_exists.mp (by simpa using (mem_filter.mp hn).2)
  have hlength := hperm.length_eq
  rw [length_map, length_map] at hlength
  rw [hlength, roots, ← length_eq_length_filter_add]

end Plan

/-! ## Chains of edges -/

namespace Draft

/-- Edges of the draft, each from where the one before it leads. -/
structure Chain (d : Draft) (es : List Edge) : Prop where
  edges : es ⊆ d.edges
  linked : es.IsChain fun e e' => e.target = e'.source

variable {d : Draft} {p : Plan}

theorem parent?_eq_some_iff_depends (h : d.build = .ok p) (producer consumer : String) :
    p.parent? consumer = some producer ↔ d.Depends producer consumer := by
  have hplan : p.Built := ⟨d, h⟩
  obtain ⟨-, -, -, -, hlinks⟩ := (d.build_eq_ok_iff p).mp h
  rw [← hplan.mem_dependents_iff, Plan.dependents, hlinks, Link.mem_targets, mem_links]

theorem chain_concat_iff (es : List Edge) (e : Edge) :
    d.Chain (es ++ [e]) ↔ d.Chain es ∧ e ∈ d.edges ∧ ∀ e' ∈ es.getLast?, e'.target = e.source := by
  constructor
  · rintro ⟨hedges, hlinked⟩
    obtain ⟨hes, -, hlast⟩ := List.isChain_append.mp hlinked
    exact ⟨⟨fun e' he' => hedges (mem_append_left _ he'), hes⟩, hedges (by simp),
      fun e' he' => hlast e' he' e rfl⟩
  · rintro ⟨⟨hedges, hlinked⟩, he, hlast⟩
    refine ⟨append_subset.mpr ⟨hedges, by simpa using he⟩, List.isChain_append.mpr ?_⟩
    refine ⟨hlinked, .singleton e, fun e' he' e'' he'' => ?_⟩
    obtain rfl : e = e'' := by simpa using he''
    exact hlast e' he'

/-- A chain is no longer than its last target is away from its root. -/
theorem Chain.exists_distance (h : d.build = .ok p) {es : List Edge} {e : Edge}
    (hchain : d.Chain (es ++ [e])) : ∃ k > es.length, p.Distance e.target k := by
  have hplan : p.Built := ⟨d, h⟩
  induction es using reverseRecOn generalizing e with
  | nil =>
      obtain ⟨-, he, -⟩ := (chain_concat_iff _ _).mp hchain
      have hparent := (parent?_eq_some_iff_depends h _ _).mpr ⟨e, he, rfl, rfl⟩
      obtain ⟨k, -, hk⟩ := hplan.exists_distance (hplan.mem_ids_of_parent? hparent).1
      exact ⟨k + 1, Nat.succ_pos k, hk.consumer hparent⟩
  | append_singleton es e' ih =>
      obtain ⟨hfirst, he, hlast⟩ := (chain_concat_iff _ _).mp hchain
      have hparent := (parent?_eq_some_iff_depends h _ _).mpr ⟨e, he, rfl, rfl⟩
      obtain ⟨k, hk, hdistance⟩ := ih hfirst
      rw [hlast e' (by simp)] at hdistance
      exact ⟨k + 1, by simpa using hk, hdistance.consumer hparent⟩

/-- As many edges as a node is away from its root lead to it. -/
theorem exists_chain_of_distance (h : d.build = .ok p) {id : String} {k : Nat}
    (hdistance : p.Distance id k) :
    ∃ es, d.Chain es ∧ es.length = k ∧ ∀ e ∈ es.getLast?, e.target = id := by
  induction k generalizing id with
  | zero => exact ⟨[], ⟨by simp, .nil⟩, rfl, by simp⟩
  | succ k ih =>
      obtain ⟨root, hk, hroot⟩ := hdistance
      obtain ⟨producer, hparent, hk⟩ := (Plan.ancestor?_succ_eq_some_iff _ _ _).mp hk
      obtain ⟨es, hes, hlength, hlast⟩ := ih ⟨root, hk, hroot⟩
      obtain ⟨e, he, rfl, rfl⟩ := (parent?_eq_some_iff_depends h _ _).mp hparent
      exact ⟨es ++ [e], (chain_concat_iff es e).mpr ⟨hes, he, hlast⟩, by simp [hlength], by simp⟩

/-- The greatest depth is the length of the longest chain. -/
theorem isGreatest_length_chain (h : d.build = .ok p) :
    IsGreatest {k | ∃ es, d.Chain es ∧ es.length = k} p.stats.maxDepth := by
  have hplan : p.Built := ⟨d, h⟩
  obtain ⟨hdepth, hgreatest⟩ := hplan.maxDepth_spec
  constructor
  · rcases hdepth with hzero | ⟨id, -, hdistance⟩
    · exact ⟨[], ⟨by simp, .nil⟩, hzero.symm⟩
    · obtain ⟨es, hes, hlength, -⟩ := exists_chain_of_distance h hdistance
      exact ⟨es, hes, hlength⟩
  · rintro _ ⟨es, hes, rfl⟩
    cases es using reverseRecOn with
    | nil => exact Nat.zero_le _
    | append_singleton es e =>
        obtain ⟨-, he, -⟩ := (chain_concat_iff _ _).mp hes
        have hparent := (parent?_eq_some_iff_depends h _ _).mpr ⟨e, he, rfl, rfl⟩
        obtain ⟨k, hk, hdistance⟩ := hes.exists_distance h
        have hmost := hgreatest (.inr ⟨e.target, (hplan.mem_ids_of_parent? hparent).2, hdistance⟩)
        rw [length_append, length_singleton]
        exact Nat.le_trans hk hmost

/-! ## The sizes of a draft -/

/-- These sizes are those of the draft, repeated edges counted as the field says. -/
structure Sizes (d : Draft) (s : Plan.Stats) : Prop where
  nodes : s.nodes = d.nodes.length
  /-- Every declared edge counts, also one that repeats another. -/
  edges : s.edges = d.edges.length
  roots : s.roots = (d.nodes.filter fun n => d.edges.all (·.target ≠ n.id)).length
  /-- Edges between the same nodes count once. -/
  balance : s.roots + (d.edges.map fun e => (e.source, e.target)).toFinset.card = s.nodes
  deepest : IsGreatest {k | ∃ es, d.Chain es ∧ es.length = k} s.maxDepth
  shallow : d.nodes = [] → s.maxDepth = 0

/-- The statistics of what was built from a draft are the sizes of the draft. -/
theorem sizes_of_build {d : Draft} {p : Plan} (h : d.build = .ok p) : d.Sizes p.stats := by
  have hplan : p.Built := ⟨d, h⟩
  obtain ⟨hd, -, hnodes, hedges, hlinks⟩ := (d.build_eq_ok_iff p).mp h
  constructor
  case nodes => exact congrArg length hnodes
  case edges => exact congrArg length hedges
  case roots =>
    rw [Plan.stats, Plan.roots, hnodes]
    refine congrArg length (filter_congr fun n _ => ?_)
    have hnone : (p.parent? n.id).isNone = true ↔ ∀ producer, ¬ d.Depends producer n.id := by
      simp [Option.eq_none_iff_forall_ne_some, parent?_eq_some_iff_depends h]
    have hfree : (d.edges.all (·.target ≠ n.id)) = true ↔
        ∀ producer, ¬ d.Depends producer n.id := by
      simp only [all_eq_true, decide_eq_true_eq]
      constructor
      · rintro hall producer ⟨e, he, -, htarget⟩
        exact hall e he htarget
      · exact fun hall e he htarget => hall e.source ⟨e, he, rfl, htarget⟩
    exact Bool.eq_iff_iff.mpr (hnone.trans hfree.symm)
  case balance =>
    have hsame : (d.edges.map fun e => (e.source, e.target)).toFinset = p.links.toFinset := by
      ext l
      simp [hlinks, links]
    have hcard : p.links.toFinset.card = p.links.length :=
      toFinset_card_of_nodup (hlinks ▸ d.nodup_links)
    rw [hsame, hcard]
    exact hplan.roots_add_links
  case deepest => exact isGreatest_length_chain h
  case shallow =>
    intro hempty
    obtain ⟨es, hes, hlength⟩ := (isGreatest_length_chain h).1
    have hnone : d.edges = [] := by
      refine eq_nil_iff_forall_not_mem.mpr fun e he => ?_
      simpa [ids, hempty] using (hd.joined e he).1
    obtain rfl : es = [] := subset_nil.mp (hnone ▸ hes.edges)
    exact hlength.symm

/-- Two roots, and below one of them a node that two edges lead to and another one behind it. -/
def copse : Draft where
  nodes := ["a", "b", "c", "d"].map fun id => ⟨id, .text, .text, .alwaysFail 0 id "closed"⟩
  edges := [.between "c" "b", .between "b" "a", .between "c" "b"]

theorem sizes_of_build_copse : ∃ p, copse.build = .ok p ∧ p.stats = ⟨4, 3, 2, 2⟩ ∧
    copse.Sizes p.stats :=
  ⟨⟨copse.nodes, copse.edges, [("c", "b"), ("b", "a")], ["c", "d", "b", "a"]⟩, by rfl, by rfl,
    sizes_of_build (by rfl)⟩

end Draft

end Orchestration
