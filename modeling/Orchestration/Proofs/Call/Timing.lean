import Orchestration.Proofs.Call.Confinement
import Orchestration.Proofs.Call.Waiting

/-! # Calls over time

A call that waits is polled again at some later time, at the latest when its next timer is due. What
it comes to is an inductive predicate, with one rule for each way of composing calls. -/

namespace Orchestration.Call

variable {α : Type} {W : Session → Session → Prop} {bound : Option Nat} {I I' : Session → Prop}
  {Q Q' : Ending α → Session → Prop} {call body : Call α} {s : Session}

theorem now_of_poll {state : Progress (Call α) (Ending α)} {s' : Session}
    (h : call.poll s = (state, s')) : s'.now = s.now := by
  have hstill := (call.atOnce_poll s).still
  rwa [h] at hstill

/-- Polled again and again, though not after the bound, while changes such as `W` happen in between,
the call ends as `Q` says. As long as it waits, `I` holds. -/
inductive Until (W : Session → Session → Prop) (bound : Option Nat) (I : Session → Prop)
    (Q : Ending α → Session → Prop) : Call α → Session → Prop where
  | ended {call : Call α} {s s' : Session} {ending : Ending α}
      (hpoll : call.poll s = (.ended ending, s')) (hends : Q ending s') : Until W bound I Q call s
  | waits {call rest : Call α} {s s' : Session} (hpoll : call.poll s = (.waiting rest, s'))
      (hholds : I s')
      (hnext : ∀ s'', W s' s'' → s'.now < s''.now → (∀ time ∈ bound, s''.now ≤ time) →
        (∀ t ∈ rest.nextTimer, s''.now ≤ t.due) → Until W bound I Q rest s'') :
      Until W bound I Q call s

namespace Until

theorem mono (h : Until W bound I Q call s) (hI : ∀ s, I s → I' s)
    (hQ : ∀ ending s, Q ending s → Q' ending s) : Until W bound I' Q' call s := by
  induction h with
  | ended hpoll hends => exact .ended hpoll (hQ _ _ hends)
  | waits hpoll hholds hnext ih => exact .waits hpoll (hI _ hholds) ih

/-- What a call comes to depends on its next poll only. -/
theorem of_poll_eq {call' : Call α} {s' : Session} (heq : call.poll s = call'.poll s')
    (h : Until W bound I Q call' s') : Until W bound I Q call s := by
  cases h with
  | ended hpoll hends => exact .ended (heq.trans hpoll) hends
  | waits hpoll hholds hnext => exact .waits (heq.trans hpoll) hholds hnext

theorem finish {ending : Ending α} (h : Q ending s) : Until W bound I Q (.finish ending) s :=
  .ended rfl h

theorem act {action : Action} {next : action.Answer → Call α}
    (h : Until W bound I Q (next (s.perform action).1) (s.perform action).2) :
    Until W bound I Q (.act action next) s := by
  refine of_poll_eq ?_ h
  rfl

theorem guarded (onDrop : Event) (h : Until W bound I Q body s) :
    Until W bound I Q (.guarded onDrop body) s := by
  induction h with
  | ended hpoll hends => exact .ended (by rw [Call.poll, hpoll]) hends
  | waits hpoll hholds hnext ih => exact .waits (by rw [Call.poll, hpoll]) hholds ih

theorem andThen {next : Ending α → Call α} (h : Until W bound I Q' body s)
    (hnext : ∀ ending s', Q' ending s' → Until W bound I Q (next ending) s') :
    Until W bound I Q (.andThen body next) s := by
  induction h with
  | ended hpoll hends =>
      refine (hnext _ _ hends).of_poll_eq ?_
      rw [Call.poll, hpoll]
  | waits hpoll hholds _ ih => exact .waits (by rw [Call.poll, hpoll]) hholds ih

/-- A wait for a timer is over when it is due. `K` is what remains true until then. -/
theorem timer {K : Session → Prop} (hW : ∀ s s', W s s' → K s → K s') {t : Timer} {next : Call α}
    (hI : ∀ s', K s' → s'.now < t.due → I s')
    (hnext : ∀ s', K s' → s'.now = t.due → Until W bound I Q next s') (hs : K s)
    (hnow : s.now ≤ t.due) : Until W bound I Q (.await (.timer t) next) s := by
  induction hleft : t.due - s.now using Nat.strongRecOn generalizing s with
  | _ left ih =>
      rcases Nat.lt_or_eq_of_le hnow with hearly | hdue
      · have hpoll : (Call.await (.timer t) next).poll s = (.waiting (.await (.timer t) next), s) :=
          if_neg (by simpa [Session.holds] using hearly)
        refine .waits hpoll (hI s hs hearly) fun s' hs' hlater _ hle => ?_
        have htime := hle t rfl
        exact ih (t.due - s'.now) (by omega) (hW s s' hs' hs) htime rfl
      · refine (hnext s hs hdue).of_poll_eq ?_
        exact if_pos (by simp [Session.holds, hdue])

theorem sleep {K : Session → Prop} (hW : ∀ s s', W s s' → K s → K s') {millis : Nat}
    {next : Call α} (hI : ∀ s', K s' → s'.now < s.now + millis → I s')
    (hnext : ∀ s', K s' → s'.now = s.now + millis → Until W bound I Q next s')
    (hs : K (s.setTimer millis).2) : Until W bound I Q (.sleep millis next) s :=
  .act (.timer hW hI hnext hs (Nat.le_add_right _ _))

/-- Up to a bound a call does nothing else than it does without one. -/
theorem bounded (h : Until W none I Q call s) : Until W bound I Q call s := by
  induction h with
  | ended hpoll hends => exact .ended hpoll hends
  | waits hpoll hholds _ ih =>
      exact .waits hpoll hholds fun s'' hs'' hlater _ => ih s'' hs'' hlater (by simp)

/-- What ends up to a bound ends no later. -/
theorem le_bound {time : Nat} (h : Until W (some time) I Q call s) (hnow : s.now ≤ time) :
    Until W (some time) I (fun ending s' => Q ending s' ∧ s'.now ≤ time) call s := by
  induction h with
  | ended hpoll hends => exact .ended hpoll ⟨hends, now_of_poll hpoll ▸ hnow⟩
  | waits hpoll hholds _ ih =>
      refine .waits hpoll hholds fun s'' hs'' hlater hle htimer => ?_
      exact ih s'' hs'' hlater hle htimer (hle time rfl)

/-- Work with a deadline ends by then, or it is dropped at that time and its context is
cancelled. -/
theorem within {deadline : Timer} {scope : Context} {late : Ending α}
    (h : Until W (some deadline.due) I Q body s) (hnow : s.now ≤ deadline.due)
    (hlate : ∀ (rest : Call α) (s' : Session), I s' → s'.now = deadline.due →
      Q late ((rest.drop s').cancel scope)) :
    Until W bound (fun s' => I s' ∧ s'.now < deadline.due) Q
      (.within deadline scope late body) s := by
  induction h with
  | ended hpoll hends => exact .ended (by rw [Call.poll, hpoll]) hends
  | @waits body rest s s' hpoll hholds hnext ih =>
      have hstill := now_of_poll hpoll
      by_cases hdue : deadline.due ≤ s'.now
      · exact .ended (poll_within_of_due hpoll hdue).1 (hlate rest s' hholds (by omega))
      · refine .waits (poll_within_of_not_due hpoll hdue) ⟨hholds, by omega⟩ ?_
        intro s'' hs'' hlater _ hle
        obtain ⟨hdeadline, hrest⟩ := prompt_within_iff.mp hle
        exact ih s'' hs'' hlater (by simpa using hdeadline) hrest hdeadline

/-- As time passes, a call that is bound to end does so. -/
theorem exists_end (hW : ∀ (s : Session) (time : Nat), s.now < time → W s (s.advance time))
    (h : Until W none I Q call s) : ∃ ending s', Q ending s' ∧ s.now ≤ s'.now := by
  induction h with
  | ended hpoll hends => exact ⟨_, _, hends, Nat.le_of_eq (now_of_poll hpoll).symm⟩
  | @waits call rest s s' hpoll _ _ ih =>
      have hlt : s'.now < s'.now + 1 := Nat.lt_succ_self _
      obtain ⟨ending, s'', hends, hle⟩ := ih (s'.advance (s'.now + 1)) (hW s' _ hlt) hlt (by simp)
        fun t ht => now_lt_of_nextTimer hpoll ht
      have hstill := now_of_poll hpoll
      refine ⟨ending, s'', hends, ?_⟩
      simp only [Session.advance] at hle
      omega

end Until

end Orchestration.Call
