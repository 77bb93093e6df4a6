import Mathlib.Data.Fintype.Card
import Mathlib.Data.Fintype.EquivFin
import Mathlib.Data.Fintype.Sets
import Mathlib.Data.List.Perm.Subperm
import Mathlib.Logic.Relation
import Mathlib.Order.WellFounded
import Orchestration.Plan.Order

/-! # Topological order and cycles

Taking free nodes one after another leaves exactly the nodes on a cycle and those behind one. Nodes
may have several producers. The loop that does so is also given by rules without a bound, in which
a node that has no producer left cannot lose one. -/

namespace Orchestration

open List Relation

variable {ι : Type} [DecidableEq ι]

/-! ## Releasing the consumers of a node -/

theorem release_snd (ns : List ι) (degree : ι → Nat) (m : ι) :
    (release ns degree).2 m = degree m - ns.count m := by
  induction ns generalizing degree with
  | nil => rfl
  | cons n rest ih =>
      simp only [release, ih, List.count_cons]
      by_cases h : m = n
      · subst m
        simp only [ite_true, beq_self_eq_true]
        omega
      · simp [h, Ne.symm h]

theorem release_fst (ns : List ι) (degree : ι → Nat) (h : ns.Nodup) :
    (release ns degree).1 = ns.filter (degree · - 1 = 0) := by
  induction ns generalizing degree with
  | nil => rfl
  | cons n rest ih =>
      obtain ⟨hn, hrest⟩ := List.nodup_cons.mp h
      have hsame : (release rest fun m => if m = n then degree n - 1 else degree m).1 =
          rest.filter (degree · - 1 = 0) := by
        rw [ih _ hrest]
        apply List.filter_congr
        intro m hm
        have hne : m ≠ n := fun he => hn (he ▸ hm)
        simp [hne]
      simp only [release, hsame, List.filter_cons, decide_eq_true_eq]

/-- Each of some nodes loses one of the producers that it has left; those that lose the last one
become free. No rule applies to a node without any. -/
inductive Released : List ι → (ι → Nat) → List ι → (ι → Nat) → Prop where
  | nil (degree) : Released [] degree [] degree
  | last {n ns degree free left} (hlast : degree n = 1)
      (hrest : Released ns (Function.update degree n 0) free left) :
      Released (n :: ns) degree (n :: free) left
  | more {n ns degree free left k} (hmore : degree n = k + 2)
      (hrest : Released ns (Function.update degree n (k + 1)) free left) :
      Released (n :: ns) degree free left

theorem Released.eq_release {ns free : List ι} {degree left : ι → Nat}
    (h : Released ns degree free left) : release ns degree = (free, left) := by
  induction h with
  | nil degree => rfl
  | @last n ns degree free left hlast hrest ih =>
      have hupdate : (fun m => if m = n then 0 else degree m) = Function.update degree n 0 :=
        funext fun m => (Function.update_apply degree n 0 m).symm
      simp [release, hlast, hupdate, ih]
  | @more n ns degree free left k hmore hrest ih =>
      have hupdate : (fun m => if m = n then k + 1 else degree m) =
          Function.update degree n (k + 1) :=
        funext fun m => (Function.update_apply degree n (k + 1) m).symm
      simp [release, hmore, hupdate, ih]

/-- Nodes with enough producers left can lose theirs. -/
theorem released_release (ns : List ι) (degree : ι → Nat) (h : ∀ m, ns.count m ≤ degree m) :
    Released ns degree (release ns degree).1 (release ns degree).2 := by
  induction ns generalizing degree with
  | nil => exact .nil degree
  | cons n ns ih =>
      have hupdate : (fun m => if m = n then degree n - 1 else degree m) =
          Function.update degree n (degree n - 1) :=
        funext fun m => (Function.update_apply degree n _ m).symm
      have hrest : ∀ m, ns.count m ≤ Function.update degree n (degree n - 1) m := by
        intro m
        have hm := h m
        rw [List.count_cons] at hm
        by_cases hmn : m = n
        · subst m
          simp only [beq_self_eq_true, ite_true, Function.update_self] at hm ⊢
          omega
        · simpa [hmn, Ne.symm hmn] using hm
      have hn := h n
      rw [List.count_cons_self] at hn
      have hreleased := ih _ hrest
      rw [release, hupdate]
      obtain ⟨k, hk⟩ : ∃ k, degree n = k + 1 := ⟨degree n - 1, by omega⟩
      rw [hk, Nat.add_sub_cancel] at hreleased ⊢
      cases k with
      | zero => exact .last hk hreleased
      | succ k => exact .more hk hreleased

/-! ## Cycles -/

/-- A producer feeds its consumers. -/
def Feeds (children : ι → List ι) (p n : ι) : Prop := n ∈ children p

/-- A node on a cycle, or one that a cycle leads to. -/
def BehindCycle (children : ι → List ι) (n : ι) : Prop :=
  ∃ m, TransGen (Feeds children) m m ∧ ReflTransGen (Feeds children) m n

omit [DecidableEq ι] in
/-- A node behind a cycle has a producer behind a cycle. -/
theorem BehindCycle.exists_producer {children : ι → List ι} {n : ι} (h : BehindCycle children n) :
    ∃ p, n ∈ children p ∧ BehindCycle children p := by
  obtain ⟨m, hcycle, hreach⟩ := h
  rcases ReflTransGen.cases_tail hreach with heq | ⟨p, hmp, hpn⟩
  · subst heq
    obtain ⟨p, hnp, hpn⟩ := TransGen.tail'_iff.mp hcycle
    exact ⟨p, hpn, n, hcycle, hnp⟩
  · exact ⟨p, hpn, m, hcycle, hmp⟩

/-- Where every node of a finite list has a producer in the list, all are behind a cycle. -/
theorem behindCycle_of_exists_producer {children : ι → List ι} {rest : List ι}
    (h : ∀ n ∈ rest, ∃ p ∈ rest, n ∈ children p) {n : ι} (hn : n ∈ rest) :
    BehindCycle children n := by
  by_contra hclear
  -- Upstream of a node without a cycle behind it, being upstream is a well-founded relation.
  let Upstream := {m : {m : ι // m ∈ rest} // ReflTransGen (Feeds children) m.1 n}
  have : Finite Upstream := Subtype.finite
  let before : Upstream → Upstream → Prop := fun a b => TransGen (Feeds children) a.1.1 b.1.1
  have : IsTrans Upstream before := ⟨fun _ _ _ hab hbc => hab.trans hbc⟩
  have : Std.Irrefl before := ⟨fun a ha => hclear ⟨a.1.1, ha, a.2⟩⟩
  obtain ⟨first, -, hfirst⟩ := (Finite.wellFounded_of_trans_of_irrefl before).has_min Set.univ
    ⟨⟨⟨n, hn⟩, .refl⟩, trivial⟩
  obtain ⟨p, hp, hfeeds⟩ := h first.1.1 first.1.2
  exact hfirst ⟨⟨p, hp⟩, .head hfeeds first.2⟩ trivial (.single hfeeds)

/-! ## Orders in which producers come first -/

/-- Each listed node has all its producers among those done before it. -/
def ProducersFirst (children : ι → List ι) : (done : List ι) → List ι → Prop
  | _, [] => True
  | done, n :: rest =>
      (∀ p, n ∈ children p → p ∈ done) ∧ ProducersFirst children (n :: done) rest

omit [DecidableEq ι] in
theorem ProducersFirst.not_behindCycle {children : ι → List ι} {done order : List ι}
    (h : ProducersFirst children done order) (hdone : ∀ m ∈ done, ¬ BehindCycle children m) :
    ∀ n ∈ order, ¬ BehindCycle children n := by
  induction order generalizing done with
  | nil => simp
  | cons n rest ih =>
      obtain ⟨hproducers, hrest⟩ := h
      have hn : ¬ BehindCycle children n := by
        intro hbehind
        obtain ⟨p, hp, hcycle⟩ := hbehind.exists_producer
        exact hdone p (hproducers p hp) hcycle
      have hdone' : ∀ m ∈ n :: done, ¬ BehindCycle children m := by
        intro m hm
        rcases List.mem_cons.mp hm with rfl | hm
        · exact hn
        · exact hdone m hm
      intro m hm
      rcases List.mem_cons.mp hm with rfl | hm
      · exact hn
      · exact ih hrest hdone' m hm

theorem ProducersFirst.idxOf_lt {children : ι → List ι} {done order : List ι}
    (h : ProducersFirst children done order) {p n : ι} (hn : n ∈ order) (hp : n ∈ children p) :
    p ∈ done ∨ order.idxOf p < order.idxOf n := by
  induction order generalizing done with
  | nil => simp at hn
  | cons m rest ih =>
      obtain ⟨hproducers, hrest⟩ := h
      by_cases hnm : n = m
      · exact .inl (hproducers p (hnm ▸ hp))
      · by_cases hpm : p = m
        · right
          subst p
          rw [List.idxOf_cons_self, List.idxOf_cons_ne _ (Ne.symm hnm)]
          omega
        · rcases ih hrest ((List.mem_cons.mp hn).resolve_left hnm) with hdone | hlt
          · exact .inl ((List.mem_cons.mp hdone).resolve_left hpm)
          · right
            rw [List.idxOf_cons_ne _ (Ne.symm hpm), List.idxOf_cons_ne _ (Ne.symm hnm)]
            omega

/-! ## Taking free nodes -/

/-- The state between two nodes taken: degrees count the producers not taken yet, and the nodes
without any left are those taken and those in the queue. -/
structure Sorting (nodes : List ι) (children : ι → List ι) (taken queue : List ι)
    (degree : ι → Nat) : Prop where
  nodup : (taken ++ queue).Nodup
  subset : taken ++ queue ⊆ nodes
  degree_eq : ∀ n, degree n = ((nodes.filter (· ∉ taken)).flatMap children).count n
  free_iff : ∀ n ∈ nodes, degree n = 0 ↔ n ∈ taken ++ queue

section

variable {nodes : List ι} {children : ι → List ι}

theorem sorting_initial (children : ι → List ι) (hnodes : nodes.Nodup) :
    Sorting nodes children [] (nodes.filter (inDegree nodes children · = 0))
      (inDegree nodes children) where
  nodup := by simpa using hnodes.filter _
  subset := by simp
  degree_eq := by simp [inDegree]
  free_iff := by
    intro n hn
    simp [hn]

/-- Free nodes have only producers that were taken. -/
theorem Sorting.producer_mem {taken queue : List ι} {degree : ι → Nat}
    (h : Sorting nodes children taken queue degree)
    (hends : ∀ p, ∀ c ∈ children p, p ∈ nodes ∧ c ∈ nodes) {n p : ι} (hn : n ∈ taken ++ queue)
    (hp : n ∈ children p) : p ∈ taken := by
  by_contra hnot
  have hcount := h.degree_eq n
  rw [(h.free_iff n (hends p n hp).2).mpr hn, eq_comm, List.count_eq_zero] at hcount
  apply hcount
  simp only [List.mem_flatMap, List.mem_filter, decide_eq_true_eq]
  exact ⟨p, ⟨(hends p n hp).1, hnot⟩, hp⟩

/-- Taking a node splits what the remaining ones feed. -/
theorem count_flatMap_filter_notMem (children : ι → List ι) (hnodes : nodes.Nodup)
    {taken : List ι} {c : ι} (hc : c ∈ nodes) (htaken : c ∉ taken) (n : ι) :
    ((nodes.filter (· ∉ taken)).flatMap children).count n =
      (children c).count n + ((nodes.filter (· ∉ taken ++ [c])).flatMap children).count n := by
  have hperm : nodes.filter (· ∉ taken) ~ c :: nodes.filter (· ∉ taken ++ [c]) := by
    apply (List.perm_ext_iff_of_nodup (hnodes.filter _) _).mpr
    · intro m
      by_cases hm : m = c
      · simp [hm, hc, htaken]
      · simp [hm]
    · exact List.nodup_cons.mpr ⟨by simp, hnodes.filter _⟩
  rw [(hperm.flatMap_right children).count_eq n, List.flatMap_cons, List.count_append]

/-- The first node of the queue still counts as a producer of its consumers. -/
theorem Sorting.degree_split {taken queue : List ι} {c : ι} {degree : ι → Nat}
    (h : Sorting nodes children taken (c :: queue) degree) (hnodes : nodes.Nodup) (n : ι) :
    degree n = (children c).count n +
      ((nodes.filter (· ∉ taken ++ [c])).flatMap children).count n := by
  have hctaken : c ∉ taken := fun hmem =>
    (List.nodup_append.mp h.nodup).2.2 c hmem c (by simp) rfl
  rw [h.degree_eq, count_flatMap_filter_notMem children hnodes (h.subset (by simp)) hctaken]

/-- Taking the first free node and releasing its consumers keeps the state. -/
theorem Sorting.take {taken queue : List ι} {c : ι} {degree : ι → Nat}
    (h : Sorting nodes children taken (c :: queue) degree) (hnodes : nodes.Nodup)
    (hchildren : ∀ p, (children p).Nodup)
    (hends : ∀ p, ∀ c ∈ children p, p ∈ nodes ∧ c ∈ nodes) :
    Sorting nodes children (taken ++ [c]) (queue ++ (release (children c) degree).1)
      (release (children c) degree).2 := by
  have hsplit := h.degree_split hnodes
  obtain ⟨hnodup, hsubset, hdegree, hfree⟩ := h
  have hc : c ∈ nodes := hsubset (by simp)
  -- Consumers of the node still count it, so none of them is free yet.
  have hwaiting : ∀ n ∈ children c, degree n ≠ 0 ∧ n ∉ taken ++ c :: queue := by
    intro n hn
    have hpos : degree n ≠ 0 := by
      have := List.count_pos_iff.mpr hn
      rw [hsplit]
      omega
    exact ⟨hpos, fun hmem => hpos ((hfree n (hends c n hn).2).mpr hmem)⟩
  rw [release_fst _ _ (hchildren c)]
  refine ⟨?_, ?_, ?_, ?_⟩
  · rw [List.append_assoc, ← List.append_assoc [c], ← List.append_assoc taken, List.nodup_append]
    refine ⟨by simpa using hnodup, (hchildren c).filter _, ?_⟩
    rintro a ha b hb rfl
    exact (hwaiting a (List.mem_filter.mp hb).1).2 (by simpa using ha)
  · intro n hn
    simp only [List.mem_append, List.mem_filter, List.mem_singleton] at hn
    rcases hn with (hn | rfl) | hn | hn
    · exact hsubset (by simp [hn])
    · exact hc
    · exact hsubset (by simp [hn])
    · exact (hends c n hn.1).2
  · intro n
    rw [release_snd, hsplit, Nat.add_sub_cancel_left]
  · intro n hn
    rw [release_snd]
    by_cases hchild : n ∈ children c
    · have hw := hwaiting n hchild
      have hold : n ∉ taken ∧ n ≠ c ∧ n ∉ queue := by simpa using hw.2
      simp [List.count_eq_one_of_mem (hchildren c) hchild, hchild, hold]
    · have hiff := hfree n hn
      simpa [List.count_eq_zero_of_not_mem hchild, hchild, or_assoc] using hiff

/-- The loop without a bound: the first node of the queue is taken and its consumers are released,
until the queue is empty. -/
inductive Drained (children : ι → List ι) : List ι → (ι → Nat) → List ι → (ι → Nat) → Prop where
  | done (degree) : Drained children [] degree [] degree
  | take {n queue degree free rest taken left} (hrelease : Released (children n) degree free rest)
      (hnext : Drained children (queue ++ free) rest taken left) :
      Drained children (n :: queue) degree (n :: taken) left

/-- Fuel for all nodes is enough: the queue runs empty, and nobody loses a producer that it does not
have. -/
theorem drained_takeFree (hnodes : nodes.Nodup) (hchildren : ∀ p, (children p).Nodup)
    (hends : ∀ p, ∀ c ∈ children p, p ∈ nodes ∧ c ∈ nodes) (fuel : Nat) {done queue : List ι}
    {degree : ι → Nat} (h : Sorting nodes children done queue degree)
    (hfuel : nodes.length ≤ done.length + fuel) :
    Drained children queue degree (takeFree children fuel queue degree).1
      (takeFree children fuel queue degree).2 := by
  induction fuel generalizing done queue degree with
  | zero =>
      have hlength := (h.nodup.subperm h.subset).length_le
      have hempty : queue = [] := by
        apply List.length_eq_zero_iff.mp
        rw [List.length_append] at hlength
        omega
      subst queue
      exact .done degree
  | succ fuel ih =>
      cases queue with
      | nil => exact .done degree
      | cons c queue =>
          have henough : ∀ n, (children c).count n ≤ degree n := by
            intro n
            rw [h.degree_split hnodes]
            omega
          exact .take (released_release _ _ henough)
            (ih (h.take hnodes hchildren hends) (by simp; omega))

/-- A loop that has come to its end has taken producers first. -/
theorem Drained.spec (hnodes : nodes.Nodup) (hchildren : ∀ p, (children p).Nodup)
    (hends : ∀ p, ∀ c ∈ children p, p ∈ nodes ∧ c ∈ nodes) {done queue taken : List ι}
    {degree left : ι → Nat} (hdrained : Drained children queue degree taken left)
    (h : Sorting nodes children done queue degree) :
    ProducersFirst children done.reverse taken ∧
      Sorting nodes children (done ++ taken) [] left := by
  induction hdrained generalizing done with
  | done degree => simpa [ProducersFirst] using h
  | @take n queue degree free rest taken left hrelease hnext ih =>
      have hsame := h.take hnodes hchildren hends
      rw [hrelease.eq_release] at hsame
      obtain ⟨hfirst, hlast⟩ := ih hsame
      refine ⟨⟨?_, by simpa using hfirst⟩, by simpa using hlast⟩
      intro p hp
      simpa using h.producer_mem hends (by simp) hp

/-! ## The whole order -/

/-- An order, where there is one, lists every node once, producers first. Otherwise the nodes on a
cycle and those behind one are reported in the order in which they were given. -/
theorem topologicalOrder_spec (hnodes : nodes.Nodup) (hchildren : ∀ p, (children p).Nodup)
    (hends : ∀ p, ∀ c ∈ children p, p ∈ nodes ∧ c ∈ nodes) :
    match topologicalOrder nodes children with
    | .ok order => order ~ nodes ∧ ProducersFirst children [] order
    | .error left =>
        left ≠ [] ∧ left.Sublist nodes ∧ ∀ n ∈ nodes, n ∈ left ↔ BehindCycle children n := by
  have hinitial := sorting_initial children hnodes
  obtain ⟨hfirst, hend⟩ := (drained_takeFree hnodes hchildren hends nodes.length hinitial
    (by simp)).spec hnodes hchildren hends hinitial
  simp only [List.nil_append, List.reverse_nil] at hfirst hend
  obtain ⟨hnodup, hsubset, hdegree, hfree⟩ := hend
  simp only [List.append_nil] at hnodup hsubset hfree
  set degree := inDegree nodes children with hdeg
  simp only [topologicalOrder, ← hdeg]
  set taken := (takeFree children nodes.length (nodes.filter (degree · = 0)) degree).1
  set left := (takeFree children nodes.length (nodes.filter (degree · = 0)) degree).2
  have hsubperm := hnodup.subperm hsubset
  by_cases hlength : taken.length = nodes.length
  · simp only [hlength, ite_true]
    exact ⟨hsubperm.perm_of_length_le hlength.ge, hfirst⟩
  · simp only [hlength, ite_false]
    have hleft : ∀ n ∈ nodes, 0 < left n ↔ n ∉ taken := by
      intro n hn
      rw [← hfree n hn]
      omega
    refine ⟨?_, List.filter_sublist, ?_⟩
    · intro hempty
      rw [List.filter_eq_nil_iff] at hempty
      have hall : nodes ⊆ taken := fun n hn => by
        by_contra hnot
        exact hempty n hn (by simpa using (hleft n hn).mpr hnot)
      exact hlength (le_antisymm hsubperm.length_le (hnodes.subperm hall).length_le)
    · intro n hn
      simp only [List.mem_filter, hn, true_and, decide_eq_true_eq, hleft n hn]
      refine ⟨fun hnot => ?_, fun hcycle hmem => ?_⟩
      · have hproducer : ∀ m ∈ nodes.filter (· ∉ taken), ∃ p ∈ nodes.filter (· ∉ taken),
            m ∈ children p := by
          intro m hm
          simp only [List.mem_filter, decide_eq_true_eq] at hm
          have hpos := (hleft m hm.1).mpr hm.2
          rw [hdegree, List.count_pos_iff, List.mem_flatMap] at hpos
          exact hpos
        exact behindCycle_of_exists_producer hproducer (by simpa using ⟨hn, hnot⟩)
      · exact hfirst.not_behindCycle (by simp) n hmem hcycle

/-- There is an order exactly when there is no cycle. -/
theorem exists_topologicalOrder_iff (hnodes : nodes.Nodup) (hchildren : ∀ p, (children p).Nodup)
    (hends : ∀ p, ∀ c ∈ children p, p ∈ nodes ∧ c ∈ nodes) :
    (∃ order, topologicalOrder nodes children = .ok order) ↔
      ∀ n, ¬ TransGen (Feeds children) n n := by
  have hspec := topologicalOrder_spec hnodes hchildren hends
  cases horder : topologicalOrder nodes children with
  | ok order =>
      rw [horder] at hspec
      refine ⟨fun _ n hcycle => ?_, fun _ => ⟨order, rfl⟩⟩
      obtain ⟨p, hp, hbehind⟩ := BehindCycle.exists_producer ⟨n, hcycle, .refl⟩
      exact hspec.2.not_behindCycle (by simp) p (hspec.1.mem_iff.mpr (hends p n hp).1) hbehind
  | error left =>
      rw [horder] at hspec
      obtain ⟨hne, hsub, hleft⟩ := hspec
      obtain ⟨n, hn⟩ := List.exists_mem_of_ne_nil left hne
      obtain ⟨m, hcycle, -⟩ := (hleft n (hsub.subset hn)).mp hn
      exact ⟨by simp, fun hacyclic => absurd hcycle (hacyclic m)⟩

/-- The order of a graph, as its loop without a bound finds it: the loop ends without taking a
producer from a node that has none left, it has taken all nodes exactly if there is no cycle, and
then each after its producers. Otherwise the nodes that it has left are those on a cycle and those
behind one, in the order in which they were given. -/
theorem topologicalOrder_exact (hnodes : nodes.Nodup) (hchildren : ∀ p, (children p).Nodup)
    (hends : ∀ p, ∀ c ∈ children p, p ∈ nodes ∧ c ∈ nodes) :
    (∃ taken left, Drained children (nodes.filter (inDegree nodes children · = 0))
        (inDegree nodes children) taken left ∧
      topologicalOrder nodes children =
        if taken.length = nodes.length then .ok taken else .error (nodes.filter (0 < left ·))) ∧
    ((∃ order, topologicalOrder nodes children = .ok order) ↔
      ∀ n, ¬ TransGen (Feeds children) n n) ∧
    (∀ order, topologicalOrder nodes children = .ok order →
      order ~ nodes ∧ ∀ p n, n ∈ children p → order.idxOf p < order.idxOf n) ∧
    ∀ left, topologicalOrder nodes children = .error left →
      left.Sublist nodes ∧ left.Nodup ∧ ∀ n, n ∈ left ↔ BehindCycle children n := by
  have hspec := topologicalOrder_spec hnodes hchildren hends
  refine ⟨⟨_, _, drained_takeFree hnodes hchildren hends nodes.length
    (sorting_initial children hnodes) (by simp), rfl⟩,
    exists_topologicalOrder_iff hnodes hchildren hends, ?_, ?_⟩
  · intro order horder
    rw [horder] at hspec
    refine ⟨hspec.1, fun p n hn => ?_⟩
    have hlater := hspec.2.idxOf_lt (hspec.1.mem_iff.mpr (hends p n hn).2) hn
    exact hlater.resolve_left (by simp)
  · intro left hleft
    rw [hleft] at hspec
    obtain ⟨-, hsub, hbehind⟩ := hspec
    refine ⟨hsub, hnodes.sublist hsub, fun n => ?_⟩
    by_cases hn : n ∈ nodes
    · exact hbehind n hn
    · refine ⟨fun hmem => absurd (hsub.subset hmem) hn, fun hcycle => absurd ?_ hn⟩
      obtain ⟨p, hp, -⟩ := hcycle.exists_producer
      exact (hends p n hp).2

/-- Two nodes that feed each other, one behind them that also has a producer in front of it. -/
def knotted : Fin 4 → List (Fin 4)
  | 0 => [1]
  | 1 => [0, 2]
  | 2 => []
  | 3 => [2]

theorem topologicalOrder_exact_knotted :
    topologicalOrder [2, 0, 3, 1] knotted = .error [2, 0, 1] ∧
      ∀ n, n ∈ [2, 0, 1] ↔ BehindCycle knotted n := by
  have hleft : topologicalOrder [2, 0, 3, 1] knotted = .error [2, 0, 1] := by decide
  exact ⟨hleft, ((topologicalOrder_exact (by decide) (by decide) (by decide)).2.2.2 _ hleft).2.2⟩

end

end Orchestration
