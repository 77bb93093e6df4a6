import Orchestration.Agent
import Orchestration.Proofs.Call.Settling

/-! # How calls that are made from others may end

A call can only end in a way to which its parts can lead: work with a deadline as the work does or
with what replaces it, and work that something follows as what follows on an ending of the work. -/

namespace Orchestration

namespace Ending

variable {α : Type}

/-- A fault becomes a failure of the named agent. -/
def captured (name : String) : Ending α → Ending α
  | fault f => failure (.ofAgent name ("panicked: " ++ f.message))
  | ending => ending

theorem captureFault_eq (name : String) (e : Ending α) :
    captureFault name e = .finish (e.captured name) := by
  cases e <;> rfl

theorem captured_ne_fault (name : String) (e : Ending α) (f : Fault) :
    e.captured name ≠ fault f := by
  cases e <;> nofun

/-- What is not a fault stays as it is. -/
theorem map_captured (name : String) {outcome : Option (Ending α)}
    (h : ∀ f, outcome ≠ some (.fault f)) : outcome.map (·.captured name) = outcome := by
  cases outcome with
  | none => rfl
  | some ending =>
      cases ending with
      | value v | failure f => rfl
      | fault f => exact absurd rfl (h f)

end Ending

namespace Call

open Relation

variable {α : Type} {body call rest : Call α} {ending : Ending α}

theorem poll_andThen_of_waiting {s s' : Session} (hpoll : body.poll s = (.waiting rest, s'))
    (next : Ending α → Call α) :
    (andThen body next).poll s = (.waiting (andThen rest next), s') := by
  rw [Call.poll, hpoll]

theorem poll_andThen_of_ended {s s' : Session} (hpoll : body.poll s = (.ended ending, s'))
    (next : Ending α → Call α) : (andThen body next).poll s = (next ending).poll s' := by
  rw [Call.poll, hpoll]

/-- What follows on some work stays around what is left of the work. -/
theorem Remains.andThen (h : body.Remains rest) (next : Ending α → Call α) :
    (Call.andThen body next).Remains (Call.andThen rest next) := by
  induction h with
  | refl => exact .refl
  | tail _ hpoll ih =>
      obtain ⟨s, s', hpoll⟩ := hpoll
      exact ih.poll (poll_andThen_of_waiting hpoll next)

theorem MayEnd.of_ended {s s' : Session} (hpoll : call.poll s = (.ended ending, s')) :
    call.MayEnd ending :=
  ⟨call, s, s', .refl, hpoll⟩

theorem MayEnd.of_waiting (h : rest.MayEnd ending) {s s' : Session}
    (hpoll : call.poll s = (.waiting rest, s')) : call.MayEnd ending := by
  obtain ⟨last, s₁, s₂, hlast, hend⟩ := h
  exact ⟨last, s₁, s₂, .head ⟨s, s', hpoll⟩ hlast, hend⟩

/-- What holds of calls whose next poll ends so, and of calls whose next poll leaves a call of which
it holds, holds of all calls that may end so. -/
theorem MayEnd.induction {P : Call α → Prop}
    (hend : ∀ call s s', call.poll s = (.ended ending, s') → P call)
    (hwait : ∀ call rest s s', call.poll s = (.waiting rest, s') → rest.MayEnd ending → P rest →
      P call) (h : call.MayEnd ending) : P call := by
  obtain ⟨last, s₁, s₂, hlast, hpoll⟩ := h
  induction hlast using ReflTransGen.head_induction_on with
  | refl => exact hend last s₁ s₂ hpoll
  | @head call rest hstep hrest ih =>
      obtain ⟨s, s', hstep⟩ := hstep
      exact hwait call rest s s' hstep ⟨last, s₁, s₂, hrest, hpoll⟩ ih

/-- The next poll of a call that may end so either does or leaves such a call. -/
theorem MayEnd.next (h : call.MayEnd ending) : ∃ s s', call.poll s = (.ended ending, s') ∨
    ∃ rest, call.poll s = (.waiting rest, s') ∧ rest.MayEnd ending :=
  h.induction (P := fun call => ∃ s s', call.poll s = (.ended ending, s') ∨
      ∃ rest, call.poll s = (.waiting rest, s') ∧ rest.MayEnd ending)
    (fun _ s s' hpoll => ⟨s, s', .inl hpoll⟩)
    fun _ rest s s' hpoll hrest _ => ⟨s, s', .inr ⟨rest, hpoll, hrest⟩⟩

theorem mayEnd_act {action : Action} {next : action.Answer → Call α}
    (h : (act action next).MayEnd ending) :
    ∃ s : Session, (next (s.perform action).1).MayEnd ending := by
  obtain ⟨s, s', hpoll | ⟨rest, hpoll, hrest⟩⟩ := h.next
  · exact ⟨s, .of_ended hpoll⟩
  · exact ⟨s, hrest.of_waiting hpoll⟩

theorem mayEnd_await {wake : Wake} {next : Call α} (h : (await wake next).MayEnd ending) :
    next.MayEnd ending := by
  generalize hcall : await wake next = call at h
  refine h.induction (P := fun call => call = await wake next → next.MayEnd ending) ?_ ?_ hcall.symm
  · rintro _ s s' hpoll rfl
    rw [Call.poll] at hpoll
    split at hpoll
    · exact .of_ended hpoll
    · cases hpoll
  · rintro _ rest s s' hpoll hrest ih rfl
    rw [Call.poll] at hpoll
    split at hpoll
    · exact hrest.of_waiting hpoll
    · cases hpoll
      exact ih rfl

theorem mayEnd_sleep {millis : Nat} {next : Call α} (h : (sleep millis next).MayEnd ending) :
    next.MayEnd ending := by
  obtain ⟨s, hnext⟩ := mayEnd_act h
  exact mayEnd_await hnext

theorem mayEnd_within {deadline : Timer} {scope : Context} {late : Ending α}
    (h : (within deadline scope late body).MayEnd ending) :
    ending = late ∨ body.MayEnd ending := by
  generalize hcall : within deadline scope late body = call at h
  refine h.induction (P := fun call => ∀ body, call = within deadline scope late body →
    ending = late ∨ body.MayEnd ending) ?_ ?_ body hcall.symm
  · rintro _ s s' hpoll body rfl
    rw [Call.poll] at hpoll
    split at hpoll
    · rename_i heq
      cases hpoll
      exact .inr (.of_ended heq)
    · split at hpoll
      · cases hpoll
        exact .inl rfl
      · cases hpoll
  · rintro _ rest s s' hpoll hrest ih body rfl
    rw [Call.poll] at hpoll
    split at hpoll
    · cases hpoll
    · rename_i heq
      split at hpoll
      · cases hpoll
      · cases hpoll
        exact (ih _ rfl).imp_right fun hbody => hbody.of_waiting heq

theorem mayEnd_andThen {next : Ending α → Call α} (h : (andThen body next).MayEnd ending) :
    ∃ ending', body.MayEnd ending' ∧ (next ending').MayEnd ending := by
  generalize hcall : andThen body next = call at h
  refine h.induction (P := fun call => ∀ body, call = andThen body next →
    ∃ ending', body.MayEnd ending' ∧ (next ending').MayEnd ending) ?_ ?_ body hcall.symm
  · rintro _ s s' hpoll body rfl
    rw [Call.poll] at hpoll
    split at hpoll
    · rename_i heq
      exact ⟨_, .of_ended heq, .of_ended hpoll⟩
    · cases hpoll
  · rintro _ rest s s' hpoll hrest ih body rfl
    rw [Call.poll] at hpoll
    split at hpoll
    · rename_i heq
      exact ⟨_, .of_ended heq, hrest.of_waiting hpoll⟩
    · rename_i heq
      cases hpoll
      obtain ⟨ending', hbody, hnext⟩ := ih _ rfl
      exact ⟨ending', hbody.of_waiting heq, hnext⟩

end Call

end Orchestration
