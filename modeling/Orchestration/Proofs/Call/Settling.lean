import Mathlib.Logic.Relation
import Orchestration.Plan.Node
import Orchestration.Call

/-! # Where polling a call can lead

What may be left of a call and how it may end, over all sessions in which it may be polled, and the
calls for which only one ending is possible, which comes after finitely many waits. -/

namespace Orchestration

open Relation

namespace Call

variable {α : Type}

/-- What is left of the call after some polls, whatever the sessions were. -/
def Remains (call rest : Call α) : Prop :=
  ReflTransGen (fun call rest => ∃ s s', call.poll s = (.waiting rest, s')) call rest

/-- The ending is one to which polls of the call can lead. -/
def MayEnd (call : Call α) (ending : Ending α) : Prop :=
  ∃ rest s s', call.Remains rest ∧ rest.poll s = (.ended ending, s')

theorem Remains.poll {call rest rest' : Call α} {s s' : Session} (h : call.Remains rest)
    (hpoll : rest.poll s = (.waiting rest', s')) : call.Remains rest' :=
  h.tail ⟨s, s', hpoll⟩

theorem Remains.mayEnd {call rest : Call α} {ending : Ending α} {s s' : Session}
    (h : call.Remains rest) (hpoll : rest.poll s = (.ended ending, s')) : call.MayEnd ending :=
  ⟨rest, s, s', h, hpoll⟩

theorem remains_finish {ending : Ending α} {rest : Call α} (h : (finish ending).Remains rest) :
    rest = finish ending := by
  induction h with
  | refl => rfl
  | tail _ hpoll ih =>
      obtain ⟨s, s', hpoll⟩ := hpoll
      rw [ih, Call.poll] at hpoll
      cases hpoll

theorem mayEnd_finish {ending ending' : Ending α} (h : (finish ending).MayEnd ending') :
    ending' = ending := by
  obtain ⟨rest, s, s', hrest, hpoll⟩ := h
  rw [remains_finish hrest, Call.poll] at hpoll
  cases hpoll
  rfl

/-- However and whenever the call is polled, it can only end with this ending. Until some time it
waits, and a poll after that time ends it or leaves a call of the same sort. -/
inductive Settles (ending : Ending α) : Call α → Prop where
  | intro {call : Call α} (due : Nat)
      (early : ∀ s, s.now < due → (call.poll s).1 = .waiting call)
      (ends : ∀ s ending', due ≤ s.now → (call.poll s).1 = .ended ending' → ending' = ending)
      (goes : ∀ s rest, due ≤ s.now → (call.poll s).1 = .waiting rest → Settles ending rest) :
      Settles ending call

namespace Settles

variable {ending : Ending α} {call rest : Call α}

theorem eq_of_poll (h : call.Settles ending) {s : Session} {ending' : Ending α}
    (hpoll : (call.poll s).1 = .ended ending') : ending' = ending := by
  obtain ⟨due, early, ends, -⟩ := h
  by_cases hs : s.now < due
  · rw [early s hs] at hpoll
    cases hpoll
  · exact ends s ending' (Nat.le_of_not_lt hs) hpoll

theorem of_poll (h : call.Settles ending) {s : Session}
    (hpoll : (call.poll s).1 = .waiting rest) : rest.Settles ending := by
  have hself := h
  obtain ⟨due, early, -, goes⟩ := h
  by_cases hs : s.now < due
  · rw [early s hs] at hpoll
    cases hpoll
    exact hself
  · exact goes s rest (Nat.le_of_not_lt hs) hpoll

theorem of_remains (h : call.Settles ending) (hrest : call.Remains rest) :
    rest.Settles ending := by
  induction hrest with
  | refl => exact h
  | tail _ hpoll ih =>
      obtain ⟨s, s', hpoll⟩ := hpoll
      exact ih.of_poll (congrArg Prod.fst hpoll)

theorem eq_of_mayEnd (h : call.Settles ending) {ending' : Ending α}
    (hend : call.MayEnd ending') : ending' = ending := by
  obtain ⟨rest, s, s', hrest, hpoll⟩ := hend
  exact (h.of_remains hrest).eq_of_poll (congrArg Prod.fst hpoll)

/-! ## Calls that settle -/

theorem finish (ending : Ending α) : (Call.finish ending).Settles ending := by
  refine .intro 0 (fun s hs => absurd hs (Nat.not_lt_zero _)) ?_ ?_
  · intro s ending' _ hpoll
    simpa [Call.poll, eq_comm] using hpoll
  · intro s rest _ hpoll
    simp [Call.poll] at hpoll

theorem act {action : Action} {next : action.Answer → Call α}
    (h : ∀ answer, (next answer).Settles ending) : (Call.act action next).Settles ending := by
  refine .intro 0 (fun s hs => absurd hs (Nat.not_lt_zero _)) ?_ ?_
  · intro s ending' _ hpoll
    exact (h _).eq_of_poll hpoll
  · intro s rest _ hpoll
    exact (h _).of_poll hpoll

theorem andThen {ending' : Ending α} {next : Ending α → Call α} (h : call.Settles ending)
    (hnext : (next ending).Settles ending') : (call.andThen next).Settles ending' := by
  induction h with
  | @intro call due early ends goes ih =>
      refine .intro due ?_ ?_ ?_
      · intro s hs
        have := early s hs
        rw [Call.poll]
        split <;> simp_all
      · intro s e hs hpoll
        rw [Call.poll] at hpoll
        split at hpoll
        · rename_i heq
          rw [ends s _ hs (congrArg Prod.fst heq)] at hpoll
          exact hnext.eq_of_poll hpoll
        · cases hpoll
      · intro s rest hs hpoll
        rw [Call.poll] at hpoll
        split at hpoll
        · rename_i heq
          rw [ends s _ hs (congrArg Prod.fst heq)] at hpoll
          exact hnext.of_poll hpoll
        · rename_i heq
          cases hpoll
          exact ih s _ hs (congrArg Prod.fst heq)

end Settles

end Call

end Orchestration
