import Mathlib.Data.List.Induction
import Orchestration.Plan.Basic
import Orchestration.Proofs.Plan.Order

/-! # What makes a draft a plan

A draft is built exactly if it is well formed, and otherwise refused for its first violation. The
conditions speak of edges only and do not invoke the checks. -/

namespace Orchestration

open List Relation

namespace Draft

/-! ## Well-formed drafts -/

def ids (d : Draft) : List String := d.nodes.map (·.id)

/-- Both ends of an edge are nodes. -/
def Joined (d : Draft) (e : Edge) : Prop := e.source ∈ d.ids ∧ e.target ∈ d.ids

/-- Some edge leads from one node to the other. -/
def Depends (d : Draft) (producer consumer : String) : Prop :=
  ∃ e ∈ d.edges, e.source = producer ∧ e.target = consumer

def Acyclic (d : Draft) : Prop := ∀ id, ¬ TransGen d.Depends id id

/-- The node lies on a cycle of dependencies or behind one. -/
def Entangled (d : Draft) (id : String) : Prop :=
  ∃ m, TransGen d.Depends m m ∧ ReflTransGen d.Depends m id

/-- Edges to one target have one source, however many there are. -/
def SoleProducers (edges : List Edge) : Prop :=
  ∀ e ∈ edges, ∀ e' ∈ edges, e.target = e'.target → e.source = e'.source

/-- What the source of an edge yields has the kind that its target takes. -/
def Fits (d : Draft) (e : Edge) : Prop :=
  ∀ p ∈ d.nodes, ∀ c ∈ d.nodes, p.id = e.source → c.id = e.target → p.output = c.input

/-- The conditions, in the order in which violations are reported. -/
structure WellFormed (d : Draft) : Prop where
  distinct : d.ids.Nodup
  joined : ∀ e ∈ d.edges, d.Joined e
  acyclic : d.Acyclic
  soleProducers : SoleProducers d.edges
  fits : ∀ e ∈ d.edges, d.Fits e

/-- The first violation: all conditions before the violated one hold, and nothing before the culprit
violates that one. -/
inductive FirstViolation (d : Draft) : PlanFault → Prop where
  | duplicateNode {before n after} (split : d.nodes = before ++ n :: after)
      (first : (before.map (·.id)).Nodup) (seen : n.id ∈ before.map (·.id)) :
      FirstViolation d (.duplicateNode n.id)
  | unknownSource {before e after} (distinct : d.ids.Nodup) (split : d.edges = before ++ e :: after)
      (first : ∀ e' ∈ before, d.Joined e') (unknown : e.source ∉ d.ids) :
      FirstViolation d (.unknownNode e.id e.source)
  | unknownTarget {before e after} (distinct : d.ids.Nodup) (split : d.edges = before ++ e :: after)
      (first : ∀ e' ∈ before, d.Joined e') (known : e.source ∈ d.ids) (unknown : e.target ∉ d.ids) :
      FirstViolation d (.unknownNode e.id e.target)
  | cycle {left} (distinct : d.ids.Nodup) (joined : ∀ e ∈ d.edges, d.Joined e) (some : left ≠ [])
      (ordered : left.Sublist d.ids) (exact : ∀ id ∈ d.ids, id ∈ left ↔ d.Entangled id) :
      FirstViolation d (.cycle left)
  | manyProducers {before e after known} (distinct : d.ids.Nodup)
      (joined : ∀ e ∈ d.edges, d.Joined e) (acyclic : d.Acyclic)
      (split : d.edges = before ++ e :: after) (first : SoleProducers before)
      (earlier : known ∈ before) (same : known.target = e.target)
      (different : known.source ≠ e.source) :
      FirstViolation d (.manyProducers e.target known.source e.source)
  | kindMismatch {before e after p c} (distinct : d.ids.Nodup)
      (joined : ∀ e ∈ d.edges, d.Joined e) (acyclic : d.Acyclic)
      (soleProducers : SoleProducers d.edges) (split : d.edges = before ++ e :: after)
      (first : ∀ e' ∈ before, d.Fits e') (producer : p ∈ d.nodes) (consumer : c ∈ d.nodes)
      (source : p.id = e.source) (target : c.id = e.target) (mismatch : p.output ≠ c.input) :
      FirstViolation d (.kindMismatch e.id p.id p.output c.id c.input)

/-! ## Distinct names -/

theorem duplicate?_eq_none_iff (seen : List String) (nodes : List Node) :
    duplicate? seen nodes = none ↔
      (nodes.map (·.id)).Nodup ∧ ∀ n ∈ nodes, n.id ∉ seen := by
  induction nodes generalizing seen with
  | nil => simp [duplicate?]
  | cons n rest ih =>
      by_cases hseen : n.id ∈ seen
      · simp [duplicate?, hseen]
      · simp only [duplicate?, hseen, ite_false, ih, List.map_cons, List.nodup_cons,
          List.mem_cons, not_or, forall_eq_or_imp, List.mem_map, not_exists, not_and]
        grind

theorem duplicate?_eq_some_iff (seen : List String) (nodes : List Node) (id : String) :
    duplicate? seen nodes = some id ↔
      ∃ before n after, nodes = before ++ n :: after ∧ n.id = id ∧
        duplicate? seen before = none ∧ (id ∈ seen ∨ id ∈ before.map (·.id)) := by
  induction nodes generalizing seen with
  | nil => simp [duplicate?]
  | cons n rest ih =>
      by_cases hseen : n.id ∈ seen
      · simp only [duplicate?, hseen, ite_true, Option.some.injEq]
        constructor
        · rintro rfl
          exact ⟨[], n, rest, rfl, rfl, rfl, .inl hseen⟩
        · rintro ⟨before, m, after, hsplit, rfl, hnone, hm⟩
          cases before with
          | nil => simp_all
          | cons b before =>
              obtain ⟨rfl, -⟩ := List.cons.inj hsplit
              simp [duplicate?, hseen] at hnone
      · simp only [duplicate?, hseen, ite_false, ih]
        constructor
        · rintro ⟨before, m, after, rfl, hid, hnone, hm⟩
          refine ⟨n :: before, m, after, rfl, hid, by simpa [duplicate?, hseen] using hnone, ?_⟩
          grind
        · rintro ⟨before, m, after, hsplit, rfl, hnone, hm⟩
          cases before with
          | nil => simp_all
          | cons b before =>
              obtain ⟨rfl, rfl⟩ := List.cons.inj hsplit
              simp only [duplicate?, hseen, ite_false] at hnone
              exact ⟨before, m, after, rfl, rfl, hnone, by grind⟩

/-! ## Known ends -/

/-- The first end of an edge that is no node. -/
def strayEnd? (d : Draft) (e : Edge) : Option String :=
  if e.source ∉ d.ids then some e.source
  else if e.target ∉ d.ids then some e.target
  else none

theorem strayEnd?_eq_none_iff (d : Draft) (e : Edge) : d.strayEnd? e = none ↔ d.Joined e := by
  unfold strayEnd? Joined
  split
  · simp_all
  · split <;> simp_all

theorem strayEnd?_eq_some_iff (d : Draft) (e : Edge) (node : String) :
    d.strayEnd? e = some node ↔
      e.source ∉ d.ids ∧ e.source = node ∨
        e.source ∈ d.ids ∧ e.target ∉ d.ids ∧ e.target = node := by
  unfold strayEnd?
  split
  · simp_all
  · split <;> simp_all

theorem unknownEnd?_eq_findSome? (d : Draft) :
    d.unknownEnd? = d.edges.findSome? fun e => (d.strayEnd? e).map (e.id, ·) := by
  have hknown : ∀ id, d.nodes.any (·.id = id) = decide (id ∈ d.ids) := by
    intro id
    simp [ids, List.any_eq]
  rw [unknownEnd?, List.find?_flatMap]
  congr 1
  funext e
  by_cases hsource : e.source ∈ d.ids
  · by_cases htarget : e.target ∈ d.ids <;> simp [strayEnd?, hknown, hsource, htarget]
  · simp [strayEnd?, hknown, hsource]

theorem unknownEnd?_eq_none_iff (d : Draft) :
    d.unknownEnd? = none ↔ ∀ e ∈ d.edges, d.Joined e := by
  simp [unknownEnd?_eq_findSome?, strayEnd?_eq_none_iff]

theorem unknownEnd?_eq_some_iff (d : Draft) (edge node : String) :
    d.unknownEnd? = some (edge, node) ↔
      ∃ before e after, d.edges = before ++ e :: after ∧ (∀ e' ∈ before, d.Joined e') ∧
        e.id = edge ∧ d.strayEnd? e = some node := by
  simp only [unknownEnd?_eq_findSome?, List.findSome?_eq_some_iff, Option.map_eq_some_iff,
    Prod.mk.injEq, Option.map_eq_none_iff, strayEnd?_eq_none_iff]
  grind

end Draft

/-! ## Sole producers -/

namespace Link

/-- Links to one target have one source. -/
def Sole (links : List Link) : Prop := ∀ a ∈ links, ∀ b ∈ links, a.2 = b.2 → a.1 = b.1

theorem source?_eq_none_iff (links : List Link) (target : String) :
    source? links target = none ↔ ∀ l ∈ links, l.2 ≠ target := by
  simp [source?]

theorem mem_of_source?_eq_some {links : List Link} {source target : String}
    (h : source? links target = some source) : (source, target) ∈ links := by
  obtain ⟨⟨source', target'⟩, hfind, rfl⟩ := Option.map_eq_some_iff.mp h
  have htarget : target' = target := by simpa using List.find?_some hfind
  exact htarget ▸ List.mem_of_find?_eq_some hfind

theorem source?_eq_some_iff {links : List Link} (h : Sole links) (source target : String) :
    source? links target = some source ↔ (source, target) ∈ links := by
  refine ⟨mem_of_source?_eq_some, fun hmem => ?_⟩
  cases hsource : source? links target with
  | none => exact absurd rfl ((source?_eq_none_iff links target).mp hsource _ hmem)
  | some source' =>
      have hmem' := mem_of_source?_eq_some hsource
      exact congrArg some (h _ hmem' _ hmem rfl)

theorem eraseDups_concat (links : List Link) (l : Link) :
    (links ++ [l]).eraseDups = links.eraseDups ++ if l ∈ links then [] else [l] := by
  rw [List.eraseDups_append]
  by_cases h : l ∈ links <;> simp [List.removeAll, List.eraseDups_cons, h]

end Link

namespace Draft

theorem conflict?_append (seen xs ys : List Link) :
    conflict? seen (xs ++ ys) = (conflict? seen xs).or (conflict? (xs.reverse ++ seen) ys) := by
  induction xs generalizing seen with
  | nil => simp [conflict?]
  | cons l xs ih =>
      obtain ⟨source, target⟩ := l
      cases h : Link.source? seen target with
      | none => simp [conflict?, h, ih]
      | some known => simp [conflict?, h]

/-- The last link conflicts if it is new and its target has a source already. -/
theorem conflict?_concat (links : List Link) (source target : String) :
    conflict? [] (links ++ [(source, target)]).eraseDups =
      (conflict? [] links.eraseDups).or
        (if (source, target) ∈ links then none
        else (Link.source? links.eraseDups.reverse target).map (target, ·, source)) := by
  rw [Link.eraseDups_concat, conflict?_append]
  congr 1
  split
  · rfl
  · cases h : Link.source? links.eraseDups.reverse target <;> simp [conflict?, h]

/-- Where earlier links agree, the last one conflicts with an earlier link to its target that has
another source. -/
theorem conflict?_concat_eq_some_iff {links : List Link} (hsole : Link.Sole links)
    (hnone : conflict? [] links.eraseDups = none) (source target : String)
    (c : String × String × String) :
    conflict? [] (links ++ [(source, target)]).eraseDups = some c ↔
      ∃ known, (known, target) ∈ links ∧ known ≠ source ∧ c = (target, known, source) := by
  have hreverse : Link.Sole links.eraseDups.reverse := by
    intro a ha b hb
    exact hsole a (by simpa using ha) b (by simpa using hb)
  rw [conflict?_concat, hnone, Option.none_or]
  by_cases hmem : (source, target) ∈ links
  · simp only [hmem, ite_true, reduceCtorEq, false_iff]
    rintro ⟨known, hknown, hne, -⟩
    exact hne (hsole _ hknown _ hmem rfl)
  · simp only [hmem, ite_false, Option.map_eq_some_iff, Link.source?_eq_some_iff hreverse,
      List.mem_reverse, List.mem_eraseDups]
    constructor
    · rintro ⟨known, hknown, rfl⟩
      exact ⟨known, hknown, fun he => hmem (he ▸ hknown), rfl⟩
    · rintro ⟨known, hknown, -, rfl⟩
      exact ⟨known, hknown, rfl⟩

theorem conflict?_eq_none_iff (links : List Link) :
    conflict? [] links.eraseDups = none ↔ Link.Sole links := by
  induction links using List.reverseRecOn with
  | nil => simp [conflict?, Link.Sole]
  | append_singleton links l ih =>
      obtain ⟨source, target⟩ := l
      by_cases hsole : Link.Sole links
      · have hlast := conflict?_concat_eq_some_iff hsole (ih.mpr hsole) source target
        rw [Option.eq_none_iff_forall_ne_some]
        constructor
        · rintro hnone ⟨s, t⟩ ha ⟨s', t'⟩ hb rfl
          by_contra hne
          simp only [List.mem_append, List.mem_singleton, Prod.mk.injEq] at ha hb
          rcases ha with ha | ⟨rfl, ht⟩ <;> rcases hb with hb | ⟨rfl, ht'⟩
          · exact hne (hsole _ ha _ hb rfl)
          · exact hnone _ ((hlast _).mpr ⟨s, ht' ▸ ha, hne, rfl⟩)
          · exact hnone _ ((hlast _).mpr ⟨s', ht ▸ hb, Ne.symm hne, rfl⟩)
          · exact hne rfl
        · intro hall c hc
          obtain ⟨known, hknown, hne, -⟩ := (hlast c).mp hc
          exact hne (hall (known, target) (by simp [hknown]) (source, target) (by simp) rfl)
      · rw [conflict?_concat, Option.or_eq_none_iff, ih]
        refine ⟨fun h => absurd h.1 hsole, fun hall => absurd (fun a ha b hb => ?_) hsole⟩
        exact hall a (by simp [ha]) b (by simp [hb])

/-- A split of a list with one more element is a split of the list, or stands at its end. -/
private theorem exists_split_concat {α : Type*} (xs : List α) (x y : α) (P : List α → Prop) :
    (∃ before after, xs ++ [x] = before ++ y :: after ∧ P before) ↔
      (∃ before after, xs = before ++ y :: after ∧ P before) ∨ x = y ∧ P xs := by
  constructor
  · rintro ⟨before, after, heq, hbefore⟩
    rcases List.eq_nil_or_concat after with rfl | ⟨after, last, rfl⟩
    · obtain ⟨rfl, hl⟩ := List.append_inj' heq rfl
      exact .inr ⟨(List.cons.inj hl).1, hbefore⟩
    · rw [List.concat_eq_append, ← List.cons_append, ← List.append_assoc] at heq
      exact .inl ⟨before, after, (List.append_inj' heq rfl).1, hbefore⟩
  · rintro (⟨before, after, rfl, hbefore⟩ | ⟨rfl, hxs⟩)
    · exact ⟨before, after ++ [x], by simp, hbefore⟩
    · exact ⟨xs, [], rfl, hxs⟩

theorem conflict?_eq_some_iff (links : List Link) (target known source : String) :
    conflict? [] links.eraseDups = some (target, known, source) ↔
      ∃ before after, links = before ++ (source, target) :: after ∧ Link.Sole before ∧
        (known, target) ∈ before ∧ known ≠ source := by
  induction links using List.reverseRecOn with
  | nil => simp [conflict?]
  | append_singleton links l ih =>
      obtain ⟨source', target'⟩ := l
      rw [exists_split_concat, ← ih]
      by_cases hsole : Link.Sole links
      · have hnone := (conflict?_eq_none_iff links).mpr hsole
        rw [conflict?_concat_eq_some_iff hsole hnone, hnone]
        grind
      · cases hc : conflict? [] links.eraseDups with
        | none => exact absurd ((conflict?_eq_none_iff links).mp hc) hsole
        | some c => simp [conflict?_concat, hc, hsole]

/-! ## Kinds along edges -/

theorem find?_id_eq_some_iff {nodes : List Node} (h : (nodes.map (·.id)).Nodup) (id : String)
    (n : Node) : nodes.find? (·.id = id) = some n ↔ n ∈ nodes ∧ n.id = id := by
  constructor
  · intro hfind
    exact ⟨List.mem_of_find?_eq_some hfind, by simpa using List.find?_some hfind⟩
  · rintro ⟨hn, rfl⟩
    cases hfind : nodes.find? (·.id = n.id) with
    | none => simpa using List.find?_eq_none.mp hfind n hn
    | some m =>
        have hm : m.id = n.id := by simpa using List.find?_some hfind
        exact congrArg some (List.inj_on_of_nodup_map h (List.mem_of_find?_eq_some hfind) hn hm)

/-- The mismatch of one edge. -/
def misfit? (d : Draft) (e : Edge) : Option PlanFault :=
  match d.node? e.source, d.node? e.target with
  | some producer, some consumer =>
    if producer.output = consumer.input then none
    else some (.kindMismatch e.id producer.id producer.output consumer.id consumer.input)
  | _, _ => none

theorem misfit?_eq_some_iff {d : Draft} (h : d.ids.Nodup) (e : Edge) (f : PlanFault) :
    d.misfit? e = some f ↔ ∃ p ∈ d.nodes, ∃ c ∈ d.nodes, p.id = e.source ∧ c.id = e.target ∧
      p.output ≠ c.input ∧ f = .kindMismatch e.id p.id p.output c.id c.input := by
  have hnode := find?_id_eq_some_iff h
  unfold misfit? node?
  constructor
  · intro hsome
    split at hsome
    · rename_i p c hp hc
      obtain ⟨hp, hsource⟩ := (hnode _ _).mp hp
      obtain ⟨hc, htarget⟩ := (hnode _ _).mp hc
      split at hsome
      · cases hsome
      · rename_i hne
        exact ⟨p, hp, c, hc, hsource, htarget, hne, (Option.some.inj hsome).symm⟩
    · cases hsome
  · rintro ⟨p, hp, c, hc, hsource, htarget, hne, rfl⟩
    rw [(hnode _ _).mpr ⟨hp, hsource⟩, (hnode _ _).mpr ⟨hc, htarget⟩]
    simp [hne]

theorem misfit?_eq_none_iff {d : Draft} (h : d.ids.Nodup) (e : Edge) :
    d.misfit? e = none ↔ d.Fits e := by
  rw [Option.eq_none_iff_forall_ne_some]
  simp only [ne_eq, misfit?_eq_some_iff h, Fits]
  constructor
  · intro hnone p hp c hc hsource htarget
    by_contra hne
    exact hnone _ ⟨p, hp, c, hc, hsource, htarget, hne, rfl⟩
  · rintro hfits f ⟨p, hp, c, hc, hsource, htarget, hne, -⟩
    exact hne (hfits p hp c hc hsource htarget)

theorem mismatch?_eq_findSome? (d : Draft) : d.mismatch? = d.edges.findSome? d.misfit? := rfl

end Draft

/-! ## Links -/

namespace Link

theorem mem_targets (links : List Link) (source target : String) :
    target ∈ targets links source ↔ (source, target) ∈ links := by
  simp [targets]

theorem nodup_targets {links : List Link} (h : links.Nodup) (source : String) :
    (targets links source).Nodup := by
  apply List.Nodup.map_on _ (h.filter _)
  rintro ⟨s, t⟩ ha ⟨s', t'⟩ hb rfl
  simp only [List.mem_filter, decide_eq_true_eq] at ha hb
  rw [ha.2, hb.2]

theorem nodup_eraseDups (links : List Link) : links.eraseDups.Nodup := by
  induction links using List.reverseRecOn with
  | nil => exact List.nodup_nil
  | append_singleton links l ih =>
      rw [eraseDups_concat]
      split
      · simpa using ih
      · rename_i h
        refine List.nodup_append.mpr ⟨ih, by simp, fun a ha b hb he => h ?_⟩
        rw [List.mem_singleton] at hb
        simpa [he, hb] using ha

end Link

namespace Draft

theorem nodup_links (d : Draft) : d.links.Nodup := Link.nodup_eraseDups _

theorem mem_links (d : Draft) (producer consumer : String) :
    (producer, consumer) ∈ d.links ↔ d.Depends producer consumer := by
  simp [links, Depends]

theorem feeds_links (d : Draft) : Feeds (Link.targets d.links) = d.Depends := by
  funext producer consumer
  exact propext ((Link.mem_targets _ _ _).trans (d.mem_links producer consumer))

theorem sole_links_iff (edges : List Edge) :
    Link.Sole (edges.map fun e => (e.source, e.target)) ↔ SoleProducers edges := by
  simp [Link.Sole, SoleProducers]

theorem conflict?_links_eq_none_iff (d : Draft) :
    conflict? [] d.links = none ↔ SoleProducers d.edges :=
  (conflict?_eq_none_iff _).trans (sole_links_iff d.edges)

theorem conflict?_links_eq_some_iff (d : Draft) (target known source : String) :
    conflict? [] d.links = some (target, known, source) ↔
      ∃ before e after, d.edges = before ++ e :: after ∧ SoleProducers before ∧
        e.source = source ∧ e.target = target ∧
          ∃ k ∈ before, k.target = e.target ∧ k.source ≠ e.source ∧ k.source = known := by
  rw [links, conflict?_eq_some_iff]
  constructor
  · rintro ⟨before, after, hsplit, hsole, hknown, hne⟩
    obtain ⟨front, rest, hedges, rfl, hrest⟩ := List.map_eq_append_iff.mp hsplit
    obtain ⟨e, back, rfl, he, -⟩ := List.map_eq_cons_iff.mp hrest
    obtain ⟨k, hk, hkeq⟩ := List.mem_map.mp hknown
    obtain ⟨rfl, rfl⟩ := Prod.mk.inj he
    obtain ⟨rfl, htarget⟩ := Prod.mk.inj hkeq
    exact ⟨front, e, back, hedges, (sole_links_iff front).mp hsole, rfl, rfl, k, hk, htarget, hne,
      rfl⟩
  · rintro ⟨before, e, after, hsplit, hsole, rfl, rfl, k, hk, htarget, hne, rfl⟩
    refine ⟨_, _, by rw [hsplit, List.map_append, List.map_cons], (sole_links_iff before).mpr hsole,
      ?_, hne⟩
    exact List.mem_map.mpr ⟨k, hk, by rw [htarget]⟩

/-! ## Building -/

theorem build_eq (d : Draft) : d.build =
    match duplicate? [] d.nodes with
    | some node => .error (.duplicateNode node)
    | none => match d.unknownEnd? with
      | some (edge, node) => .error (.unknownNode edge node)
      | none => match topologicalOrder d.ids (Link.targets d.links) with
        | .error left => .error (.cycle left)
        | .ok order => match conflict? [] d.links with
          | some (node, first, second) => .error (.manyProducers node first second)
          | none => match d.mismatch? with
            | some f => .error f
            | none => .ok ⟨d.nodes, d.edges, d.links, order⟩ := by
  unfold build ids
  dsimp only
  cases duplicate? [] d.nodes with
  | some node => rfl
  | none =>
      cases d.unknownEnd? with
      | some e => rfl
      | none =>
          cases topologicalOrder (d.nodes.map (·.id)) (Link.targets d.links) with
          | error left => rfl
          | ok order =>
              cases conflict? [] d.links with
              | some c => rfl
              | none => cases d.mismatch? <;> rfl

theorem distinct_iff (d : Draft) : duplicate? [] d.nodes = none ↔ d.ids.Nodup := by
  simp [duplicate?_eq_none_iff, ids]

theorem targets_joined {d : Draft} (h : ∀ e ∈ d.edges, d.Joined e) (p : String) :
    ∀ c ∈ Link.targets d.links p, p ∈ d.ids ∧ c ∈ d.ids := by
  intro c hc
  rw [Link.mem_targets, mem_links] at hc
  obtain ⟨e, he, rfl, rfl⟩ := hc
  exact h e he

theorem exists_order_iff {d : Draft} (hdistinct : d.ids.Nodup)
    (hjoined : ∀ e ∈ d.edges, d.Joined e) :
    (∃ order, topologicalOrder d.ids (Link.targets d.links) = .ok order) ↔ d.Acyclic := by
  rw [exists_topologicalOrder_iff hdistinct (Link.nodup_targets d.nodup_links)
    (targets_joined hjoined), feeds_links]
  rfl

/-- What cannot be ordered is on a cycle or behind one. -/
theorem order_eq_error {d : Draft} (hdistinct : d.ids.Nodup) (hjoined : ∀ e ∈ d.edges, d.Joined e)
    {left : List String} (h : topologicalOrder d.ids (Link.targets d.links) = .error left) :
    left ≠ [] ∧ left.Sublist d.ids ∧ ∀ id ∈ d.ids, id ∈ left ↔ d.Entangled id := by
  have hspec := topologicalOrder_spec hdistinct (Link.nodup_targets d.nodup_links)
    (targets_joined hjoined)
  rw [h] at hspec
  simpa only [BehindCycle, Entangled, feeds_links] using hspec

theorem build_eq_ok_iff (d : Draft) (p : Plan) :
    d.build = .ok p ↔ d.WellFormed ∧
      topologicalOrder d.ids (Link.targets d.links) = .ok p.order ∧
      p.nodes = d.nodes ∧ p.edges = d.edges ∧ p.links = d.links := by
  constructor
  · intro h
    rw [build_eq] at h
    split at h
    · cases h
    rename_i hduplicate
    split at h
    · cases h
    rename_i hunknown
    have hdistinct := (distinct_iff d).mp hduplicate
    have hjoined := (unknownEnd?_eq_none_iff d).mp hunknown
    split at h
    · cases h
    rename_i order horder
    split at h
    · cases h
    rename_i hconflict
    split at h
    · cases h
    rename_i hmismatch
    cases h
    refine ⟨⟨hdistinct, hjoined, ?_, ?_, ?_⟩, horder, rfl, rfl, rfl⟩
    · exact (exists_order_iff hdistinct hjoined).mp ⟨order, horder⟩
    · exact (conflict?_links_eq_none_iff d).mp hconflict
    · rw [mismatch?_eq_findSome?, List.findSome?_eq_none_iff] at hmismatch
      exact fun e he => (misfit?_eq_none_iff hdistinct e).mp (hmismatch e he)
  · obtain ⟨nodes, edges, links, order⟩ := p
    rintro ⟨⟨hdistinct, hjoined, -, hsole, hfits⟩, horder, rfl, rfl, rfl⟩
    have hmismatch : d.mismatch? = none := by
      rw [mismatch?_eq_findSome?, List.findSome?_eq_none_iff]
      exact fun e he => (misfit?_eq_none_iff hdistinct e).mpr (hfits e he)
    rw [build_eq, (distinct_iff d).mpr hdistinct, (unknownEnd?_eq_none_iff d).mpr hjoined, horder,
      (conflict?_links_eq_none_iff d).mpr hsole, hmismatch]

/-- The reported fault is the first violation. -/
theorem firstViolation_of_build_eq_error {d : Draft} {f : PlanFault} (h : d.build = .error f) :
    d.FirstViolation f := by
  rw [build_eq] at h
  split at h
  · rename_i hduplicate
    cases h
    obtain ⟨before, n, after, hsplit, rfl, hfirst, hseen⟩ :=
      (duplicate?_eq_some_iff _ _ _).mp hduplicate
    exact .duplicateNode hsplit ((duplicate?_eq_none_iff _ _).mp hfirst).1 (by simpa using hseen)
  rename_i hduplicate
  have hdistinct := (distinct_iff d).mp hduplicate
  split at h
  · rename_i hunknown
    cases h
    obtain ⟨before, e, after, hsplit, hfirst, rfl, hstray⟩ :=
      (unknownEnd?_eq_some_iff d _ _).mp hunknown
    rcases (strayEnd?_eq_some_iff d e _).mp hstray with ⟨hsource, rfl⟩ | ⟨hsource, htarget, rfl⟩
    · exact .unknownSource hdistinct hsplit hfirst hsource
    · exact .unknownTarget hdistinct hsplit hfirst hsource htarget
  rename_i hunknown
  have hjoined := (unknownEnd?_eq_none_iff d).mp hunknown
  split at h
  · rename_i horder
    cases h
    obtain ⟨hne, hsub, hexact⟩ := order_eq_error hdistinct hjoined horder
    exact .cycle hdistinct hjoined hne hsub hexact
  rename_i order horder
  have hacyclic := (exists_order_iff hdistinct hjoined).mp ⟨order, horder⟩
  split at h
  · rename_i hconflict
    cases h
    obtain ⟨before, e, after, hsplit, hsole, rfl, rfl, k, hk, htarget, hne, rfl⟩ :=
      (conflict?_links_eq_some_iff d _ _ _).mp hconflict
    exact .manyProducers hdistinct hjoined hacyclic hsplit hsole hk htarget hne
  rename_i hconflict
  have hsole := (conflict?_links_eq_none_iff d).mp hconflict
  split at h
  · rename_i hmismatch
    cases h
    rw [mismatch?_eq_findSome?, List.findSome?_eq_some_iff] at hmismatch
    obtain ⟨before, e, after, hsplit, hmisfit, hfirst⟩ := hmismatch
    obtain ⟨p, hp, c, hc, hsource, htarget, hne, rfl⟩ :=
      (misfit?_eq_some_iff hdistinct e _).mp hmisfit
    have hearlier : ∀ e' ∈ before, d.Fits e' := fun e' he' =>
      (misfit?_eq_none_iff hdistinct e').mp (hfirst e' he')
    exact .kindMismatch hdistinct hjoined hacyclic hsole hsplit hearlier hp hc hsource htarget hne
  · cases h

/-- Without duplicates, the elements of a sublist determine it. -/
private theorem eq_filter_mem_of_sublist {xs ys : List String} (h : xs.Sublist ys)
    (hys : ys.Nodup) : xs = ys.filter (· ∈ xs) := by
  induction h with
  | slnil => rfl
  | cons a h ih =>
      obtain ⟨ha, hys⟩ := List.nodup_cons.mp hys
      rw [List.filter_cons_of_neg (by simpa using fun hmem => ha (h.subset hmem))]
      exact ih hys
  | @cons_cons xs ys a h ih =>
      obtain ⟨ha, hys⟩ := List.nodup_cons.mp hys
      rw [List.filter_cons_of_pos (by simp)]
      congr 1
      refine (ih hys).trans (List.filter_congr fun b hb => ?_)
      have hne : b ≠ a := fun he => ha (he ▸ hb)
      simp [hne]

/-- The first violation is reported. -/
theorem FirstViolation.build_eq {d : Draft} {f : PlanFault} (h : d.FirstViolation f) :
    d.build = .error f := by
  rw [Draft.build_eq]
  cases h with
  | @duplicateNode before n after hsplit hfirst hseen =>
      have hduplicate : duplicate? [] d.nodes = some n.id :=
        (duplicate?_eq_some_iff _ _ _).mpr ⟨before, n, after, hsplit, rfl,
          (duplicate?_eq_none_iff _ _).mpr ⟨hfirst, by simp⟩, .inr hseen⟩
      rw [hduplicate]
  | @unknownSource before e after hdistinct hsplit hfirst hunknown =>
      have hfound : d.unknownEnd? = some (e.id, e.source) :=
        (unknownEnd?_eq_some_iff d _ _).mpr ⟨before, e, after, hsplit, hfirst, rfl,
          (strayEnd?_eq_some_iff d e _).mpr (.inl ⟨hunknown, rfl⟩)⟩
      rw [(distinct_iff d).mpr hdistinct, hfound]
  | @unknownTarget before e after hdistinct hsplit hfirst hknown hunknown =>
      have hfound : d.unknownEnd? = some (e.id, e.target) :=
        (unknownEnd?_eq_some_iff d _ _).mpr ⟨before, e, after, hsplit, hfirst, rfl,
          (strayEnd?_eq_some_iff d e _).mpr (.inr ⟨hknown, hunknown, rfl⟩)⟩
      rw [(distinct_iff d).mpr hdistinct, hfound]
  | @cycle left hdistinct hjoined hne hsub hexact =>
      rw [(distinct_iff d).mpr hdistinct, (unknownEnd?_eq_none_iff d).mpr hjoined]
      cases horder : topologicalOrder d.ids (Link.targets d.links) with
      | ok order =>
          obtain ⟨id, hid⟩ := List.exists_mem_of_ne_nil left hne
          obtain ⟨m, hcycle, -⟩ := (hexact id (hsub.subset hid)).mp hid
          exact absurd hcycle ((exists_order_iff hdistinct hjoined).mp ⟨order, horder⟩ m)
      | error left' =>
          obtain ⟨-, hsub', hexact'⟩ := order_eq_error hdistinct hjoined horder
          have hsame : left' = left := calc
            left' = d.ids.filter (· ∈ left') := eq_filter_mem_of_sublist hsub' hdistinct
            _ = d.ids.filter (· ∈ left) := List.filter_congr fun id hid =>
              decide_eq_decide.mpr ((hexact' id hid).trans (hexact id hid).symm)
            _ = left := (eq_filter_mem_of_sublist hsub hdistinct).symm
          rw [hsame]
  | @manyProducers before e after known hdistinct hjoined hacyclic hsplit hfirst hearlier hsame
      hne =>
      obtain ⟨order, horder⟩ := (exists_order_iff hdistinct hjoined).mpr hacyclic
      have hconflict : conflict? [] d.links = some (e.target, known.source, e.source) :=
        (conflict?_links_eq_some_iff d _ _ _).mpr
          ⟨before, e, after, hsplit, hfirst, rfl, rfl, known, hearlier, hsame, hne, rfl⟩
      rw [(distinct_iff d).mpr hdistinct, (unknownEnd?_eq_none_iff d).mpr hjoined, horder,
        hconflict]
  | @kindMismatch before e after p c hdistinct hjoined hacyclic hsole hsplit hfirst hp hc hsource
      htarget hne =>
      obtain ⟨order, horder⟩ := (exists_order_iff hdistinct hjoined).mpr hacyclic
      have hmismatch : d.mismatch? =
          some (.kindMismatch e.id p.id p.output c.id c.input) := by
        rw [mismatch?_eq_findSome?, List.findSome?_eq_some_iff]
        exact ⟨before, e, after, hsplit,
          (misfit?_eq_some_iff hdistinct e _).mpr ⟨p, hp, c, hc, hsource, htarget, hne, rfl⟩,
          fun e' he' => (misfit?_eq_none_iff hdistinct e').mpr (hfirst e' he')⟩
      rw [(distinct_iff d).mpr hdistinct, (unknownEnd?_eq_none_iff d).mpr hjoined, horder,
        (conflict?_links_eq_none_iff d).mpr hsole, hmismatch]

/-- A draft becomes a plan exactly if it is well formed, and a refused one is refused for its first
violation. -/
theorem build_ok_iff_and_error_iff (d : Draft) :
    ((∃ p, d.build = .ok p) ↔ d.WellFormed) ∧
      ∀ f, d.build = .error f ↔ d.FirstViolation f := by
  refine ⟨⟨fun ⟨p, hp⟩ => ((build_eq_ok_iff d p).mp hp).1, fun h => ?_⟩, fun f =>
    ⟨firstViolation_of_build_eq_error, FirstViolation.build_eq⟩⟩
  obtain ⟨order, horder⟩ := (exists_order_iff h.distinct h.joined).mpr h.acyclic
  exact ⟨⟨d.nodes, d.edges, d.links, order⟩, (build_eq_ok_iff d _).mpr ⟨h, horder, rfl, rfl, rfl⟩⟩

end Draft

end Orchestration
