import Orchestration.Proofs.Plan.Tables

/-! # Plans level by level

Where no node has two producers, taking free nodes first come first served lists the roots and then
the consumers of each listed node in turn, so the nodes come in the order of their distance from the
roots. In a plan each node is at one distance from one root. -/

namespace Orchestration

open List Relation

/-! ## First come, first served -/

section

variable {ι : Type} {children : ι → List ι} {roots : List ι}

/-- How far nodes can be from a root: a root no step, any other node one step more than its
producer. -/
structure Distances (roots : List ι) (children : ι → List ι) (far : ι → Nat → Prop) : Prop where
  unique : ∀ n i j, far n i → far n j → i = j
  root : ∀ n ∈ roots, ∀ k, far n k → k = 0
  child : ∀ p, ∀ n ∈ children p, ∀ k, far n k → ∃ i, far p i ∧ k = i + 1

/-- The one node is no further from a root than the other. -/
def NoFurther (far : ι → Nat → Prop) (n m : ι) : Prop := ∀ i j, far n i → far m j → i ≤ j

/-- Nodes that are roots or consumers of nodes no further than another one are no further than the
consumers of that one. -/
theorem Distances.noFurther {far : ι → Nat → Prop} (h : Distances roots children far)
    {done : List ι} {p n m : ι} (hdone : ∀ q ∈ done, NoFurther far q p)
    (hn : n ∈ roots ++ done.flatMap children) (hm : m ∈ children p) : NoFurther far n m := by
  intro i j hi hj
  rcases mem_append.mp hn with hroot | hchild
  · rw [h.root n hroot i hi]
    exact Nat.zero_le j
  · obtain ⟨q, hq, hnq⟩ := mem_flatMap.mp hchild
    obtain ⟨i', hi', rfl⟩ := h.child q n hnq i hi
    obtain ⟨j', hj', rfl⟩ := h.child p m hm j hj
    exact Nat.succ_le_succ (hdone q hq i' j' hi' hj')

variable [DecidableEq ι] {nodes : List ι}

theorem inDegree_eq_zero_iff (nodes : List ι) (children : ι → List ι) (n : ι) :
    inDegree nodes children n = 0 ↔ ∀ p ∈ nodes, n ∉ children p := by
  simp [inDegree, count_eq_zero, mem_flatMap]

/-- Without second producers, all consumers of the node that is taken become free. -/
theorem Sorting.release_eq {done queue : List ι} {c : ι} {degree : ι → Nat}
    (h : Sorting nodes children done (c :: queue) degree) (hnodes : nodes.Nodup)
    (hchildren : ∀ p, (children p).Nodup)
    (hsole : ∀ p q n, n ∈ children p → n ∈ children q → p = q) :
    (release (children c) degree).1 = children c := by
  rw [release_fst _ _ (hchildren c), filter_eq_self]
  intro n hn
  have hothers : ((nodes.filter (· ∉ done ++ [c])).flatMap children).count n = 0 := by
    rw [count_eq_zero, mem_flatMap]
    rintro ⟨p, hp, hpn⟩
    obtain rfl := hsole p c n hpn hn
    simp at hp
  have hdegree := h.degree_split hnodes n
  rw [count_eq_one_of_mem (hchildren c) hn, hothers] at hdegree
  simp [hdegree]

/-- What has been taken and what waits are the roots and the consumers of the nodes taken, in turn,
and nothing comes before what is nearer to a root. -/
theorem Drained.level_order (hnodes : nodes.Nodup) (hchildren : ∀ p, (children p).Nodup)
    (hends : ∀ p, ∀ c ∈ children p, p ∈ nodes ∧ c ∈ nodes)
    (hsole : ∀ p q n, n ∈ children p → n ∈ children q → p = q) {far : ι → Nat → Prop}
    (hfar : Distances roots children far) {done queue taken : List ι} {degree left : ι → Nat}
    (hdrained : Drained children queue degree taken left)
    (h : Sorting nodes children done queue degree)
    (hqueue : done ++ queue = roots ++ done.flatMap children)
    (hlevels : (done ++ queue).Pairwise (NoFurther far)) :
    done ++ taken = roots ++ (done ++ taken).flatMap children ∧
      (done ++ taken).Pairwise (NoFurther far) := by
  induction hdrained generalizing done with
  | done degree => exact ⟨by simpa using hqueue, hlevels⟩
  | @take n queue degree free rest taken left hrelease hnext ih =>
      have hfree : free = children n := by
        rw [← h.release_eq hnodes hchildren hsole, hrelease.eq_release]
      subst hfree
      have hsame := h.take hnodes hchildren hends
      rw [hrelease.eq_release] at hsame
      have hsplit : done ++ [n] ++ (queue ++ children n) = (done ++ n :: queue) ++ children n := by
        simp
      have hself : NoFurther far n n := fun i j hi hj => (hfar.unique n i j hi hj).le
      have hdone : ∀ q ∈ done, NoFurther far q n := fun q hq =>
        (pairwise_append.mp hlevels).2.2 q hq n mem_cons_self
      have hsiblings : ∀ m ∈ children n, ∀ m' ∈ children n, NoFurther far m m' := by
        intro m hm m' hm'
        have halone : ∀ q ∈ [n], NoFurther far q n := by simpa using hself
        exact hfar.noFurther halone (by simpa using Or.inr hm) hm'
      have hqueue' : done ++ [n] ++ (queue ++ children n) =
          roots ++ (done ++ [n]).flatMap children := by
        rw [hsplit, hqueue]
        simp
      have hlevels' : (done ++ [n] ++ (queue ++ children n)).Pairwise (NoFurther far) := by
        rw [hsplit]
        refine pairwise_append.mpr ⟨hlevels, ?_, fun m hm m' hm' => ?_⟩
        · exact pairwise_of_forall_mem_list hsiblings
        · exact hfar.noFurther hdone (hqueue ▸ hm) hm'
      simpa using ih hsame hqueue' hlevels'

theorem topologicalOrder_level_order (hnodes : nodes.Nodup) (hchildren : ∀ p, (children p).Nodup)
    (hends : ∀ p, ∀ c ∈ children p, p ∈ nodes ∧ c ∈ nodes)
    (hsole : ∀ p q n, n ∈ children p → n ∈ children q → p = q) {far : ι → Nat → Prop}
    (hroots : nodes.filter (inDegree nodes children · = 0) = roots)
    (hfar : Distances roots children far) {order : List ι}
    (horder : topologicalOrder nodes children = .ok order) :
    order = roots ++ order.flatMap children ∧ order.Pairwise (NoFurther far) := by
  have hinitial := sorting_initial children hnodes
  have hdrained := drained_takeFree hnodes hchildren hends nodes.length hinitial (by simp)
  have hlevels : roots.Pairwise (NoFurther far) :=
    pairwise_of_forall_mem_list fun n hn m _ i j hi _ => hfar.root n hn i hi ▸ Nat.zero_le j
  rw [hroots] at hinitial hdrained
  simp only [topologicalOrder, hroots] at horder
  split at horder
  · obtain rfl := Except.ok.inj horder
    simpa using hdrained.level_order hnodes hchildren hends hsole hfar hinitial (by simp)
      (by simpa using hlevels)
  · cases horder

end

/-! ## From node to producer -/

namespace Plan

/-- Where so many steps from node to producer lead. -/
def ancestor? (p : Plan) : Nat → String → Option String
  | 0, id => some id
  | k + 1, id => (p.parent? id).bind (p.ancestor? k)

/-- A root is so many steps away. -/
def Distance (p : Plan) (id : String) (k : Nat) : Prop :=
  ∃ root, p.ancestor? k id = some root ∧ p.isRoot root = true

variable {p : Plan}

theorem parent?_of_isRoot {id : String} (h : p.isRoot id = true) : p.parent? id = none := by
  simpa [isRoot] using (Bool.and_eq_true_iff.mp h).2

theorem ancestor?_succ_eq_some_iff (k : Nat) (id root : String) :
    p.ancestor? (k + 1) id = some root ↔
      ∃ producer, p.parent? id = some producer ∧ p.ancestor? k producer = some root := by
  rw [ancestor?, Option.bind_eq_some_iff]

/-- Only one root can be reached, and only in so many steps. -/
theorem ancestor?_unique {i j : Nat} {id root root' : String}
    (hi : p.ancestor? i id = some root) (hroot : p.isRoot root = true)
    (hj : p.ancestor? j id = some root') (hroot' : p.isRoot root' = true) :
    i = j ∧ root = root' := by
  induction i generalizing id j with
  | zero =>
      obtain rfl := Option.some.inj hi
      cases j with
      | zero => exact ⟨rfl, Option.some.inj hj⟩
      | succ j =>
          obtain ⟨producer, hparent, -⟩ := (ancestor?_succ_eq_some_iff _ _ _).mp hj
          simp [parent?_of_isRoot hroot] at hparent
  | succ i ih =>
      obtain ⟨producer, hparent, hi⟩ := (ancestor?_succ_eq_some_iff _ _ _).mp hi
      cases j with
      | zero =>
          obtain rfl := Option.some.inj hj
          simp [parent?_of_isRoot hroot'] at hparent
      | succ j =>
          obtain ⟨producer', hparent', hj⟩ := (ancestor?_succ_eq_some_iff _ _ _).mp hj
          obtain rfl : producer = producer' := Option.some.inj (hparent.symm.trans hparent')
          obtain ⟨rfl, rfl⟩ := ih hi hj
          exact ⟨rfl, rfl⟩

theorem exists_ancestor?_iff (root id : String) : (∃ k, p.ancestor? k id = some root) ↔
    ReflTransGen (fun producer consumer => p.parent? consumer = some producer) root id := by
  constructor
  · rintro ⟨k, hk⟩
    induction k generalizing id with
    | zero =>
        obtain rfl := Option.some.inj hk
        exact .refl
    | succ k ih =>
        obtain ⟨producer, hparent, hk⟩ := (ancestor?_succ_eq_some_iff _ _ _).mp hk
        exact (ih producer hk).tail hparent
  · intro h
    induction h with
    | refl => exact ⟨0, rfl⟩
    | tail _ hparent ih =>
        obtain ⟨k, hk⟩ := ih
        exact ⟨k + 1, (ancestor?_succ_eq_some_iff _ _ _).mpr ⟨_, hparent, hk⟩⟩

theorem isRoot_iff (p : Plan) (id : String) : p.isRoot id = true ↔ id ∈ p.roots.map (·.id) := by
  simp only [isRoot, contains, roots, Bool.and_eq_true, any_eq_true, decide_eq_true_eq, mem_map,
    mem_filter]
  constructor
  · rintro ⟨⟨n, hn, rfl⟩, hnone⟩
    exact ⟨n, ⟨hn, hnone⟩, rfl⟩
  · rintro ⟨n, ⟨hn, hnone⟩, rfl⟩
    exact ⟨⟨n, hn, rfl⟩, hnone⟩

namespace Built

theorem distances (h : p.Built) : Distances (p.roots.map (·.id)) p.dependents p.Distance where
  unique := fun _ _ _ ⟨_, hi, hroot⟩ ⟨_, hj, hroot'⟩ => (ancestor?_unique hi hroot hj hroot').1
  root := by
    rintro n hn k ⟨root, hk, hroot⟩
    exact (ancestor?_unique hk hroot rfl ((p.isRoot_iff n).mpr hn)).1
  child := by
    rintro producer n hn k ⟨root, hk, hroot⟩
    have hparent := (h.mem_dependents_iff producer n).mp hn
    cases k with
    | zero =>
        obtain rfl := Option.some.inj hk
        simp [parent?_of_isRoot hroot] at hparent
    | succ k =>
        obtain ⟨producer', hparent', hk⟩ := (ancestor?_succ_eq_some_iff _ _ _).mp hk
        obtain rfl : producer = producer' := Option.some.inj (hparent.symm.trans hparent')
        exact ⟨k, ⟨root, hk, hroot⟩, rfl⟩

/-- The order lists the roots and then the consumers of each node that it lists, in turn, and no
node after one that is further from its root. -/
theorem level_order (h : p.Built) :
    p.order = p.roots.map (·.id) ++ p.order.flatMap p.dependents ∧
      p.order.Pairwise (NoFurther p.Distance) := by
  obtain ⟨d, hd, horder, hnodes, -, hlinks⟩ := h.exists_draft
  have hdependents : Link.targets d.links = p.dependents := by
    funext id
    rw [dependents, hlinks]
  have hjoined := Draft.targets_joined hd.joined
  rw [hdependents] at horder hjoined
  have hroots : d.ids.filter (inDegree d.ids p.dependents · = 0) = p.roots.map (·.id) := by
    rw [roots, hnodes, Draft.ids, filter_map]
    congr 1
    refine filter_congr fun n hn => ?_
    have hroot : inDegree (d.nodes.map (·.id)) p.dependents n.id = 0 ↔
        (p.parent? n.id).isNone = true := by
      rw [inDegree_eq_zero_iff, h.isNone_parent?_iff]
      exact ⟨fun hnone producer hmem => hnone producer (hjoined producer _ hmem).1 hmem,
        fun hnone producer _ => hnone producer⟩
    exact Bool.eq_iff_iff.mpr (decide_eq_true_iff.trans hroot)
  refine topologicalOrder_level_order hd.distinct h.nodup_dependents hjoined ?_ hroots h.distances
    horder
  intro producer producer' n hn hn'
  rw [h.mem_dependents_iff] at hn hn'
  exact Option.some.inj (hn.symm.trans hn')

/-- A root is no more steps away than nodes come earlier in the order. -/
theorem exists_distance (h : p.Built) {id : String} (hid : id ∈ p.ids) :
    ∃ k ≤ p.order.idxOf id, p.Distance id k := by
  induction id using h.wellFounded_parent?.induction with
  | _ id ih =>
      cases hparent : p.parent? id with
      | none =>
          obtain ⟨n, hn, rfl⟩ := mem_map.mp hid
          have hroot : n ∈ p.roots := mem_filter.mpr ⟨hn, by simp [hparent]⟩
          exact ⟨0, Nat.zero_le _, n.id, rfl, (p.isRoot_iff _).mpr (mem_map_of_mem hroot)⟩
      | some producer =>
          obtain ⟨k, hk, root, hroot, his⟩ := ih producer hparent (h.mem_ids_of_parent? hparent).1
          refine ⟨k + 1, hk.trans_lt (h.idxOf_lt hparent), root, ?_, his⟩
          exact (ancestor?_succ_eq_some_iff _ _ _).mpr ⟨producer, hparent, hroot⟩

/-- Going from node to producer comes to a root, in fewer steps than there are nodes. -/
theorem ascent (h : p.Built) {id : String} (hid : id ∈ p.ids) :
    ∃ k < p.nodes.length, p.Distance id k ∧ ∀ j, p.Distance id j → j = k := by
  obtain ⟨k, hk, hdistance⟩ := h.exists_distance hid
  have hlt := idxOf_lt_length_of_mem (h.order_spec.1.mem_iff.mpr hid)
  rw [h.order_spec.1.length_eq, ids, length_map] at hlt
  exact ⟨k, hk.trans_lt hlt, hdistance, fun j hj => h.distances.unique id j k hj hdistance⟩

/-- Every node descends from one root. -/
theorem existsUnique_root (h : p.Built) {id : String} (hid : id ∈ p.ids) :
    ∃! root, p.isRoot root = true ∧
      ReflTransGen (fun producer consumer => p.parent? consumer = some producer) root id := by
  obtain ⟨k, -, root, hk, hroot⟩ := h.exists_distance hid
  refine ⟨root, ⟨hroot, (exists_ancestor?_iff root id).mp ⟨k, hk⟩⟩, ?_⟩
  rintro root' ⟨hroot', hreach⟩
  obtain ⟨k', hk'⟩ := (exists_ancestor?_iff root' id).mpr hreach
  exact (ancestor?_unique hk' hroot' hk hroot).2

end Built

end Plan

end Orchestration
