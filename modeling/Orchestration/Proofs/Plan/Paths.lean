import Mathlib
import Orchestration.Proofs.Plan.Levels

/-! # Paths through a plan

If every node takes some time, the nodes before a node take the sum of their times one after
another. The critical path is the longest way from a root to the end of a node; it takes no longer
than all nodes together. -/

namespace Orchestration

open List

/-- Distinct members of a list are the first ones of some arrangement of it. -/
theorem exists_perm_append_of_subset {α : Type} {xs ys : List α} (hxs : xs.Nodup) (h : xs ⊆ ys) :
    ∃ rest, ys.Perm (xs ++ rest) := by
  obtain ⟨zs, hzs, hsublist⟩ := subperm_of_subset hxs h
  obtain ⟨rest, hrest⟩ := hsublist.exists_perm_append
  exact ⟨rest, hrest.trans (hzs.append_right rest)⟩

namespace Plan

/-- The nodes before a node, nearest first. -/
def ancestors (p : Plan) (id : String) : List String :=
  (range p.nodes.length).filterMap fun k => p.ancestor? (k + 1) id

/-- A quantity summed over all nodes. -/
def total (p : Plan) (f : String → Nat) : Nat := (p.ids.map f).sum

/-- How long the nodes before a node take, one after another. -/
def lead (p : Plan) (wait : String → Nat) (id : String) : Nat := ((p.ancestors id).map wait).sum

/-- How long the longest path takes, its last node included. -/
def criticalPath (p : Plan) (wait : String → Nat) : Nat :=
  (p.ids.map fun id => p.lead wait id + wait id).foldr max 0

variable {p : Plan} {wait : String → Nat} {id : String}

/-! ## Ancestors -/

theorem ancestors_of_root (h : p.parent? id = none) : p.ancestors id = [] := by
  simp [ancestors, ancestor?, h]

theorem ancestor?_eq_none_of_le {j k : Nat} (h : p.ancestor? j id = none) (hle : j ≤ k) :
    p.ancestor? k id = none := by
  induction j generalizing id k with
  | zero => cases h
  | succ j ih =>
      cases k with
      | zero => exact absurd hle (Nat.not_succ_le_zero j)
      | succ k =>
          rw [ancestor?] at h ⊢
          cases hparent : p.parent? id with
          | none => rfl
          | some producer =>
              rw [hparent] at h
              exact ih h (Nat.le_of_succ_le_succ hle)

/-- No node has as many nodes before it as the plan has nodes. -/
theorem Built.ancestor?_length_eq_none (h : p.Built) (hid : id ∈ p.ids) :
    p.ancestor? p.nodes.length id = none := by
  obtain ⟨k, hk, ⟨root, hroot, hisRoot⟩, -⟩ := h.ascent hid
  have hstop : p.ancestor? (k + 1) id = none := by
    clear hk
    induction k generalizing id with
    | zero =>
        obtain rfl := Option.some.inj hroot
        simp [ancestor?, parent?_of_isRoot hisRoot]
    | succ k ih =>
        obtain ⟨producer, hparent, hproducer⟩ := (ancestor?_succ_eq_some_iff _ _ _).mp hroot
        rw [ancestor?, hparent]
        exact ih (h.mem_ids_of_parent? hparent).1 hproducer
  exact ancestor?_eq_none_of_le hstop hk

/-- Before a node come its producer and what comes before that. -/
theorem Built.ancestors_of_parent (h : p.Built) {producer : String}
    (hparent : p.parent? id = some producer) :
    p.ancestors id = producer :: p.ancestors producer := by
  have hproducer := (h.mem_ids_of_parent? hparent).1
  have hnone := h.ancestor?_length_eq_none hproducer
  have hstep : ∀ k, p.ancestor? (k + 1) id = p.ancestor? k producer := by
    intro k
    rw [ancestor?, hparent]
    rfl
  unfold ancestors
  simp only [hstep]
  cases hlength : p.nodes.length with
  | zero =>
      rw [hlength] at hnone
      cases hnone
  | succ n =>
      rw [hlength] at hnone
      have hfirst : (range (n + 1)).filterMap (p.ancestor? · producer) =
          producer :: (range n).filterMap fun k => p.ancestor? (k + 1) producer := by
        rw [range_succ_eq_map, filterMap_cons, filterMap_map]
        rfl
      rw [hfirst, range_succ, filterMap_append]
      simp [hnone]

theorem Built.idxOf_lt_of_mem_ancestors (h : p.Built) {other : String}
    (hother : other ∈ p.ancestors id) : p.order.idxOf other < p.order.idxOf id := by
  induction id using h.wellFounded_parent?.induction with
  | _ id ih =>
      cases hparent : p.parent? id with
      | none => simp [ancestors_of_root hparent] at hother
      | some producer =>
          have hlt := h.idxOf_lt hparent
          rw [h.ancestors_of_parent hparent] at hother
          rcases mem_cons.mp hother with rfl | hother
          · exact hlt
          · exact (ih producer hparent hother).trans hlt

/-- On the path to a node no node comes twice. -/
theorem Built.nodup_path (h : p.Built) (id : String) : (id :: p.ancestors id).Nodup := by
  induction id using h.wellFounded_parent?.induction with
  | _ id ih =>
      refine nodup_cons.mpr ⟨fun hself => ?_, ?_⟩
      · exact Nat.lt_irrefl _ (h.idxOf_lt_of_mem_ancestors hself)
      · cases hparent : p.parent? id with
        | none => simp [ancestors_of_root hparent]
        | some producer =>
            rw [h.ancestors_of_parent hparent]
            exact ih producer hparent

theorem Built.path_subset (h : p.Built) (hid : id ∈ p.ids) : id :: p.ancestors id ⊆ p.ids := by
  induction id using h.wellFounded_parent?.induction with
  | _ id ih =>
      refine cons_subset.mpr ⟨hid, ?_⟩
      cases hparent : p.parent? id with
      | none => simp [ancestors_of_root hparent]
      | some producer =>
          rw [h.ancestors_of_parent hparent]
          exact ih producer hparent (h.mem_ids_of_parent? hparent).1

/-! ## Times -/

theorem lead_of_root (h : p.parent? id = none) : p.lead wait id = 0 := by
  simp [lead, ancestors_of_root h]

theorem Built.lead_of_parent (h : p.Built) {producer : String}
    (hparent : p.parent? id = some producer) :
    p.lead wait id = p.lead wait producer + wait producer := by
  rw [lead, h.ancestors_of_parent hparent, map_cons, sum_cons, Nat.add_comm]
  rfl

theorem le_criticalPath (hid : id ∈ p.ids) : p.lead wait id + wait id ≤ p.criticalPath wait := by
  unfold criticalPath
  generalize p.ids = ids at hid
  induction ids with
  | nil => cases hid
  | cons other ids ih =>
      rw [map_cons, foldr_cons]
      rcases mem_cons.mp hid with rfl | hid
      · exact Nat.le_max_left _ _
      · exact (ih hid).trans (Nat.le_max_right _ _)

theorem criticalPath_le {time : Nat} (h : ∀ id ∈ p.ids, p.lead wait id + wait id ≤ time) :
    p.criticalPath wait ≤ time := by
  unfold criticalPath
  generalize p.ids = ids at h
  induction ids with
  | nil => exact Nat.zero_le _
  | cons other ids ih =>
      obtain ⟨hother, hids⟩ := forall_mem_cons.mp h
      exact Nat.max_le.mpr ⟨hother, ih hids⟩

/-- No path takes longer than all nodes. -/
theorem Built.le_total (h : p.Built) (hid : id ∈ p.ids) :
    p.lead wait id + wait id ≤ p.total wait := by
  obtain ⟨rest, hrest⟩ := exists_perm_append_of_subset (h.nodup_path id) (h.path_subset hid)
  have hsum := (hrest.map wait).sum_eq
  rw [total, hsum, cons_append, map_cons, sum_cons, map_append, sum_append, lead]
  omega

/-- What is taken off the quantities of some nodes is taken off the sum. -/
theorem Built.total_sub (h : p.Built) {ids : List String} (hids : ids.Nodup) (hsub : ids ⊆ p.ids)
    {f : String → Nat} {amount : Nat} (hamount : ∀ id ∈ ids, amount ≤ f id) :
    p.total (fun id => if id ∈ ids then f id - amount else f id) + ids.length * amount =
      p.total f := by
  obtain ⟨rest, hrest⟩ := exists_perm_append_of_subset hids hsub
  have hothers : ∀ id ∈ rest, id ∉ ids := fun id hid hmem =>
    disjoint_of_nodup_append (hrest.nodup_iff.mp h.nodup_ids) hmem hid
  have hsame : (rest.map fun id => if id ∈ ids then f id - amount else f id) = rest.map f :=
    map_congr_left fun id hid => if_neg (hothers id hid)
  have hless : (ids.map f).sum =
      (ids.map fun id => if id ∈ ids then f id - amount else f id).sum + ids.length * amount := by
    have hback : ids.map f =
        ids.map fun id => (if id ∈ ids then f id - amount else f id) + amount := by
      refine map_congr_left fun id hid => ?_
      rw [if_pos hid, Nat.sub_add_cancel (hamount id hid)]
    rw [hback, sum_map_add, map_const', sum_replicate]
    rfl
  rw [total, total, (hrest.map _).sum_eq, (hrest.map f).sum_eq, map_append, map_append,
    sum_append, sum_append, hsame, hless]
  omega

end Plan

end Orchestration
