import Mathlib.Algebra.GroupWithZero.Nat
import Orchestration.Proofs.Call.Effects
import Orchestration.Script

/-! # Polls until the end

A call that is polled in one session after the other until it ends, and how often agents are called
in these polls. Scripted agents count their calls. -/

namespace Orchestration

theorem Session.callsOf_eq_of_calls_eq {s s' : Session} (h : s'.calls = s.calls) (agent : Nat) :
    s'.callsOf agent = s.callsOf agent := by
  rw [callsOf, h]
  rfl

namespace Call

variable {α : Type}

/-- Polled in one session after the other, the call waits until it ends in the last of them. After
each poll in which it waits, the session meets a condition. The polls are recorded with the sessions
before and after them. -/
inductive Ends (P : Session → Prop) :
    Call α → List (Session × Session) → Ending α → Prop where
  | ended {call : Call α} {ending : Ending α} {s s' : Session}
      (hpoll : call.poll s = (.ended ending, s')) : Ends P call [(s, s')] ending
  | waits {call rest : Call α} {ending : Ending α} {s s' : Session}
      {polls : List (Session × Session)} (hpoll : call.poll s = (.waiting rest, s')) (hholds : P s')
      (hrest : Ends P rest polls ending) : Ends P call ((s, s') :: polls) ending

variable {P : Session → Prop} {call call' : Call α} {ending : Ending α} {s s' s₁ : Session}
  {polls : List (Session × Session)}

/-- Only the session before the first poll is another if the first polls do the same. -/
theorem Ends.of_poll_eq (h : Ends P call' ((s₁, s') :: polls) ending)
    (hpoll : call.poll s = call'.poll s₁) : Ends P call ((s, s') :: polls) ending := by
  cases h with
  | ended hend => exact .ended (hpoll.trans hend)
  | waits hwait hholds hrest => exact .waits (hpoll.trans hwait) hholds hrest

/-! ## Counting calls -/

/-- How often an agent was called in the polls. -/
def callsIn (polls : List (Session × Session)) (agent : Nat) : Nat :=
  (polls.map fun p => p.2.callsOf agent - p.1.callsOf agent).sum

/-- The call counts no calls of agents. -/
def Uncounted : Call α → Prop
  | finish _ => True
  | act action next => (∀ agent, action ≠ .number agent) ∧ ∀ answer, (next answer).Uncounted
  | await _ next => next.Uncounted
  | guarded _ body => body.Uncounted
  | within _ _ _ body => body.Uncounted
  | andThen body next => body.Uncounted ∧ ∀ ending, (next ending).Uncounted

theorem calls_perform {action : Action} (h : ∀ agent, action ≠ .number agent) (s : Session) :
    (s.perform action).2.calls = s.calls := by
  cases action with
  | number agent => exact absurd rfl (h agent)
  | cancel c => exact s.cancel_calls c
  | watch c event =>
      simp only [Session.perform, Session.watch]
      split <;> rfl
  | timer | record | inspect | derive | isolate | detach => rfl

/-- A poll counts no calls if the call counts none, and nor does what is left of it. -/
theorem Uncounted.poll (h : call.Uncounted) (s : Session) : (call.poll s).2.calls = s.calls ∧
    ∀ rest, (call.poll s).1 = .waiting rest → rest.Uncounted := by
  induction call generalizing s with
  | finish ending => simp [Call.poll]
  | act action next ih =>
      obtain ⟨haction, hnext⟩ := h
      obtain ⟨hcalls, hrest⟩ := ih _ (hnext (s.perform action).1) (s.perform action).2
      exact ⟨hcalls.trans (calls_perform haction s), hrest⟩
  | await wake next ih =>
      rw [Call.poll]
      split
      · exact ih h s
      · refine ⟨rfl, fun rest hrest => ?_⟩
        cases hrest
        exact h
  | guarded onDrop body ih =>
      obtain ⟨hcalls, hrest⟩ := ih h s
      rw [Call.poll]
      split <;> simp_all [Uncounted]
  | within deadline scope late body ih =>
      obtain ⟨hcalls, hrest⟩ := ih h s
      rw [Call.poll]
      split
      · simp_all
      · split <;> simp_all [Uncounted]
  | andThen body next ih ihnext =>
      obtain ⟨hbody, hnext⟩ := h
      obtain ⟨hcalls, hrest⟩ := ih hbody s
      rw [Call.poll]
      split
      · rename_i ending s' hpoll
        rw [hpoll] at hcalls
        obtain ⟨hcalls', hrest'⟩ := ihnext ending (hnext ending) s'
        exact ⟨hcalls'.trans hcalls, hrest'⟩
      · simp_all [Uncounted]

theorem callsIn_cons (s s' : Session) (polls : List (Session × Session)) (agent : Nat) :
    callsIn ((s, s') :: polls) agent =
      s'.callsOf agent - s.callsOf agent + callsIn polls agent := rfl

theorem Ends.callsIn_of_uncounted (h : Ends P call polls ending) (hcall : call.Uncounted)
    (agent : Nat) : callsIn polls agent = 0 := by
  induction h with
  | @ended call ending s s' hpoll =>
      have hcalls := (hcall.poll s).1
      rw [hpoll] at hcalls
      rw [callsIn_cons, Session.callsOf_eq_of_calls_eq hcalls, Nat.sub_self]
      rfl
  | @waits call rest ending s s' polls hpoll _ _ ih =>
      obtain ⟨hcalls, hrest⟩ := hcall.poll s
      rw [hpoll] at hcalls hrest
      rw [callsIn_cons, Session.callsOf_eq_of_calls_eq hcalls, Nat.sub_self, ih (hrest rest rfl)]

/-- A call that first of all counts one call of an agent, and none later, counts this one. -/
theorem Ends.callsIn_of_number {serial : Nat} {next : Nat → Call α}
    (h : Ends P (.act (.number serial) next) polls ending) (hnext : ∀ n, (next n).Uncounted)
    (agent : Nat) : callsIn polls agent = if agent = serial then 1 else 0 := by
  have hfirst : ∀ s s' : Session, s'.calls = (s.countCall serial).calls →
      s'.callsOf agent - s.callsOf agent = if agent = serial then 1 else 0 := by
    intro s s' hcalls
    rw [Session.callsOf_eq_of_calls_eq hcalls, Session.callsOf_countCall]
    by_cases hagent : agent = serial <;> simp [hagent]
  cases h with
  | @ended _ _ s s' hpoll =>
      have hcalls := ((hnext (s.callsOf serial)).poll (s.countCall serial)).1
      have hcounted : (next (s.callsOf serial)).poll (s.countCall serial) =
          (.ended ending, s') := hpoll
      rw [hcounted] at hcalls
      exact hfirst s s' hcalls
  | @waits _ rest _ s s' polls hpoll _ hends =>
      obtain ⟨hcalls, hrest⟩ := (hnext (s.callsOf serial)).poll (s.countCall serial)
      have hcounted : (next (s.callsOf serial)).poll (s.countCall serial) =
          (.waiting rest, s') := hpoll
      rw [hcounted] at hcalls hrest
      rw [callsIn_cons, hfirst s s' hcalls, hends.callsIn_of_uncounted (hrest rest rfl),
        Nat.add_zero]

end Call

/-! ## Agents that count their calls -/

variable {ι ω : Kind}

/-- The agent first of all counts its call, and it counts no others. -/
def Agent.Counted (serial : Nat) (a : Agent ι ω) : Prop :=
  ∀ input c, ∃ next, a.start input c = .act (.number serial) next ∧ ∀ n, (next n).Uncounted

theorem Agent.counted_ofFunction (serial : Nat) (name : String)
    (f : Nat → Datum ι → Ending (Datum ω)) : (ofFunction serial name f).Counted serial :=
  fun _ _ => ⟨_, rfl, fun _ => trivial⟩

theorem Scene.uncounted_doIf {α : Type} {wanted : Option Action} {next : Call α}
    (hwanted : ∀ action ∈ wanted, ∀ agent, action ≠ .number agent) (h : next.Uncounted) :
    (doIf wanted next).Uncounted := by
  cases wanted with
  | none => exact h
  | some action => exact ⟨hwanted action rfl, fun _ => h⟩

theorem Scene.uncounted_play (scene : Scene ι) (c : Context) (step : Step) :
    (scene.play ω c step).Uncounted := by
  unfold play
  split
  · trivial
  · refine uncounted_doIf (by split <;> simp) (uncounted_doIf (by cases step.detach <;> simp) ?_)
    have hcancelling : (doIf (if step.cancel then some (.cancel c) else none)
        (scene.conclude ω c.node step.conclusion)).Uncounted :=
      uncounted_doIf (by split <;> simp) ⟨by simp, fun _ => trivial⟩
    have hwaiting : (if step.waitCancel then Call.await (.cancellation c)
        (doIf (if step.cancel then some (.cancel c) else none)
          (scene.conclude ω c.node step.conclusion))
        else doIf (if step.cancel then some (.cancel c) else none)
          (scene.conclude ω c.node step.conclusion)).Uncounted := by
      split <;> exact hcancelling
    cases step.delay with
    | none => exact hwaiting
    | some d => exact ⟨by simp, fun _ => hwaiting⟩

theorem Agent.counted_scripted (serial : Nat) (name who : String) (setting : Setting) (first : Step)
    (rest : List Step) :
    (scripted serial name who setting first rest : Agent ι ω).Counted serial := by
  refine fun input c => ⟨_, rfl, fun call => ⟨by simp, fun _ => ?_⟩⟩
  cases setting with
  | immediate => exact ⟨by simp, fun _ => trivial⟩
  | secluded => exact ⟨by simp, fun own => Scene.uncounted_play _ own _⟩
  | shared => exact Scene.uncounted_play _ c _

end Orchestration
