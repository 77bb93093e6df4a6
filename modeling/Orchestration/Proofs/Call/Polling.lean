import Mathlib.Tactic.Ring
import Orchestration.Proofs.Call.Counting
import Orchestration.Proofs.Call.Endings
import Orchestration.Proofs.Call.Timing

/-! # How a call was polled

A call that waits is polled again in another session, in which other calls may have done whatever
they do, but not later than its next timer is due. How a composed call was polled is how its parts
were polled, one after the other. -/

namespace Orchestration

open List

/-- A gap between two polls: the session that the one has left, and the session that the other
finds. -/
structure Gap where
  before : Session
  after : Session

/-- From the session on, nothing is done before a time. -/
inductive Session.Passes (due : Nat) : Session → List Gap → Session → Prop where
  | reached {s : Session} (hnow : s.now = due) : Passes due s [] s
  | waits {s s' : Session} {gap : Gap} {gaps : List Gap} (hbefore : gap.before = s)
      (hearly : s.now < due) (hprompt : gap.after.now ≤ due)
      (hrest : Passes due gap.after gaps s') : Passes due s (gap :: gaps) s'

/-- From the session on, nothing is done, and a time has not come by the end. -/
inductive Session.Lingers (due : Nat) : Session → List Gap → Session → Prop where
  | early {s : Session} (hearly : s.now < due) : Lingers due s [] s
  | waits {s s' : Session} {gap : Gap} {gaps : List Gap} (hbefore : gap.before = s)
      (hearly : s.now < due) (hprompt : gap.after.now ≤ due)
      (hrest : Lingers due gap.after gaps s') : Lingers due s (gap :: gaps) s'

/-- From the session on, so many milliseconds pass, for which a timer is set. -/
def Session.Sleeps (s : Session) (millis : Nat) (gaps : List Gap) (s' : Session) : Prop :=
  (s.setTimer millis).2.Passes (s.now + millis) gaps s'

/-- From the session on, so many milliseconds have not passed yet, for which a timer is set. -/
def Session.Dozes (s : Session) (millis : Nat) (gaps : List Gap) (s' : Session) : Prop :=
  (s.setTimer millis).2.Lingers (s.now + millis) gaps s'

theorem Session.Passes.now_eq {due : Nat} {s s' : Session} {gaps : List Gap}
    (h : s.Passes due gaps s') : s'.now = due := by
  induction h with
  | reached hnow => exact hnow
  | waits _ _ _ _ ih => exact ih

theorem Session.Sleeps.now_eq {millis : Nat} {s s' : Session} {gaps : List Gap}
    (h : s.Sleeps millis gaps s') : s'.now = s.now + millis :=
  Session.Passes.now_eq h

namespace Call

variable {α : Type}

/-- Polled in the first session, and after each gap again as long as it waits, the call comes to
the state in the last session. -/
inductive Polled : Call α → Session → List Gap → Progress (Call α) (Ending α) → Session → Prop where
  | once {call : Call α} {state : Progress (Call α) (Ending α)} {s s' : Session}
      (hpoll : call.poll s = (state, s')) : Polled call s [] state s'
  | again {call rest : Call α} {state : Progress (Call α) (Ending α)} {s s' : Session} {gap : Gap}
      {gaps : List Gap} (hpoll : call.poll s = (.waiting rest, gap.before))
      (hprompt : ∀ t ∈ rest.nextTimer, gap.after.now ≤ t.due)
      (hrest : Polled rest gap.after gaps state s') : Polled call s (gap :: gaps) state s'

variable {call call' body rest : Call α} {state : Progress (Call α) (Ending α)} {ending : Ending α}
  {s s' s₁ : Session} {gaps gaps' : List Gap}

/-- How a call is polled depends on its first poll only. -/
theorem Polled.of_poll_eq (h : call'.Polled s₁ gaps state s') (heq : call.poll s = call'.poll s₁) :
    call.Polled s gaps state s' := by
  cases h with
  | once hpoll => exact .once (heq.trans hpoll)
  | again hpoll hprompt hrest => exact .again (heq.trans hpoll) hprompt hrest

theorem polled_iff_of_poll_eq (heq : call.poll s = call'.poll s₁) :
    call.Polled s gaps state s' ↔ call'.Polled s₁ gaps state s' :=
  ⟨fun h => h.of_poll_eq heq.symm, fun h => h.of_poll_eq heq⟩

/-! ## Single steps -/

theorem polled_finish_iff :
    (finish ending).Polled s gaps state s' ↔ gaps = [] ∧ state = .ended ending ∧ s' = s := by
  constructor
  · intro h
    cases h with
    | once hpoll =>
        cases hpoll
        exact ⟨rfl, rfl, rfl⟩
    | again hpoll => cases hpoll
  · rintro ⟨rfl, rfl, rfl⟩
    exact .once rfl

theorem polled_act_iff {action : Action} {next : action.Answer → Call α} :
    (act action next).Polled s gaps state s' ↔
      (next (s.perform action).1).Polled (s.perform action).2 gaps state s' :=
  polled_iff_of_poll_eq rfl

/-- Work after a timer is polled once the timer is due. -/
theorem polled_timer_iff_or {t : Timer} {next : Call α} (hnow : s.now ≤ t.due) :
    (await (.timer t) next).Polled s gaps state s' ↔
      (state = .waiting (await (.timer t) next) ∧ s.Lingers t.due gaps s') ∨
        ∃ pause rest s₁, gaps = pause ++ rest ∧ s.Passes t.due pause s₁ ∧
          next.Polled s₁ rest state s' := by
  constructor
  · intro h
    generalize hcall : await (.timer t) next = call at h
    induction h with
    | @once call state s s' hpoll =>
        subst hcall
        by_cases hdue : t.due ≤ s.now
        · rw [poll, if_pos (by simpa [Session.holds] using hdue)] at hpoll
          exact .inr ⟨[], [], s, rfl, .reached (Nat.le_antisymm hnow hdue), .once hpoll⟩
        · rw [poll, if_neg (by simpa [Session.holds] using hdue)] at hpoll
          cases hpoll
          exact .inl ⟨rfl, .early (Nat.lt_of_not_le hdue)⟩
    | @again call rest state s s' gap gaps hpoll hprompt hrest ih =>
        subst hcall
        by_cases hdue : t.due ≤ s.now
        · rw [poll, if_pos (by simpa [Session.holds] using hdue)] at hpoll
          exact .inr ⟨[], gap :: gaps, s, rfl, .reached (Nat.le_antisymm hnow hdue),
            .again hpoll hprompt hrest⟩
        · rw [poll, if_neg (by simpa [Session.holds] using hdue)] at hpoll
          obtain ⟨hrest', hbefore⟩ := Prod.mk.inj hpoll
          obtain rfl := Progress.waiting.inj hrest'
          have hle : gap.after.now ≤ t.due := hprompt t rfl
          have hearly := Nat.lt_of_not_le hdue
          obtain ⟨rfl, hlingers⟩ | ⟨pause, rest, s₁, rfl, hpause, hnext⟩ := ih hle rfl
          · exact .inl ⟨rfl, .waits hbefore.symm hearly hle hlingers⟩
          · exact .inr ⟨gap :: pause, rest, s₁, rfl, .waits hbefore.symm hearly hle hpause, hnext⟩
  · have hwaits : ∀ {s : Session}, s.now < t.due →
        (await (.timer t) next).poll s = (.waiting (await (.timer t) next), s) :=
      fun hearly => if_neg (by simpa [Session.holds] using hearly)
    have hprompt : ∀ {s : Session}, s.now ≤ t.due →
        ∀ u ∈ (await (.timer t) next).nextTimer, s.now ≤ u.due := by
      rintro s hle u ⟨rfl⟩
      exact hle
    clear hnow
    rintro (⟨rfl, hlingers⟩ | ⟨pause, rest, s₁, rfl, hpause, hnext⟩)
    · induction hlingers with
      | early hearly => exact .once (hwaits hearly)
      | waits hbefore hearly hle _ ih =>
          subst hbefore
          exact .again (hwaits hearly) (hprompt hle) ih
    · induction hpause with
      | reached hdue => exact hnext.of_poll_eq (if_pos (by simp [Session.holds, hdue]))
      | waits hbefore hearly hle _ ih =>
          subst hbefore
          exact .again (hwaits hearly) (hprompt hle) (ih hnext)

theorem polled_sleep_iff_or {millis : Nat} {next : Call α} :
    (sleep millis next).Polled s gaps state s' ↔
      (state = .waiting (await (.timer (s.setTimer millis).1) next) ∧ s.Dozes millis gaps s') ∨
        ∃ pause rest s₁, gaps = pause ++ rest ∧ s.Sleeps millis pause s₁ ∧
          next.Polled s₁ rest state s' :=
  polled_act_iff.trans (polled_timer_iff_or (Nat.le_add_right _ _))

theorem polled_sleep_iff {millis : Nat} {next : Call α} :
    (sleep millis next).Polled s gaps (.ended ending) s' ↔
      ∃ pause rest s₁, gaps = pause ++ rest ∧ s.Sleeps millis pause s₁ ∧
        next.Polled s₁ rest (.ended ending) s' := by
  simp [polled_sleep_iff_or]

/-! ## Compositions -/

/-- What follows on some work is first polled in the poll that ends the work. -/
theorem polled_andThen_iff_or {next : Ending α → Call α} :
    (andThen body next).Polled s gaps state s' ↔
      (∃ rest, state = .waiting (andThen rest next) ∧ body.Polled s gaps (.waiting rest) s') ∨
        ∃ first gaps₁ gaps₂ s₁, gaps = gaps₁ ++ gaps₂ ∧ body.Polled s gaps₁ (.ended first) s₁ ∧
          (next first).Polled s₁ gaps₂ state s' := by
  constructor
  · intro h
    generalize hcall : andThen body next = call at h
    induction h generalizing body with
    | @once call state s s' hpoll =>
        subst hcall
        rw [poll] at hpoll
        split at hpoll
        · rename_i first s₁ hbody
          exact .inr ⟨first, [], [], s₁, rfl, .once hbody, .once hpoll⟩
        · rename_i rest s₁ hbody
          cases hpoll
          exact .inl ⟨rest, rfl, .once hbody⟩
    | @again call rest state s s' gap gaps hpoll hprompt hrest ih =>
        subst hcall
        rw [poll] at hpoll
        split at hpoll
        · rename_i first s₁ hbody
          exact .inr ⟨first, [], gap :: gaps, s₁, rfl, .once hbody, .again hpoll hprompt hrest⟩
        · rename_i rest' s₁ hbody
          obtain ⟨hrest', rfl⟩ := Prod.mk.inj hpoll
          obtain rfl := Progress.waiting.inj hrest'
          obtain ⟨rest, rfl, hwaits⟩ | ⟨first, gaps₁, gaps₂, s₁, rfl, hfirst, hnext⟩ := ih rfl
          · exact .inl ⟨rest, rfl, .again hbody hprompt hwaits⟩
          · exact .inr ⟨first, gap :: gaps₁, gaps₂, s₁, rfl, .again hbody hprompt hfirst, hnext⟩
  · rintro (⟨rest, rfl, hwaits⟩ | ⟨first, gaps₁, gaps₂, s₁, rfl, hfirst, hnext⟩)
    · generalize hstate : Progress.waiting rest = state at hwaits
      induction hwaits with
      | once hpoll =>
          subst hstate
          exact .once (poll_andThen_of_waiting hpoll next)
      | again hpoll hprompt _ ih =>
          exact .again (poll_andThen_of_waiting hpoll next) hprompt (ih hstate)
    · generalize hstate : Progress.ended first = state at hfirst
      induction hfirst with
      | once hpoll =>
          subst hstate
          exact hnext.of_poll_eq (poll_andThen_of_ended hpoll next)
      | again hpoll hprompt _ ih =>
          exact .again (poll_andThen_of_waiting hpoll next) hprompt (ih hnext hstate)

theorem polled_andThen_iff {next : Ending α → Call α} :
    (andThen body next).Polled s gaps (.ended ending) s' ↔
      ∃ first gaps₁ gaps₂ s₁, gaps = gaps₁ ++ gaps₂ ∧ body.Polled s gaps₁ (.ended first) s₁ ∧
        (next first).Polled s₁ gaps₂ (.ended ending) s' := by
  simp [polled_andThen_iff_or]

/-- Work with a deadline is polled as the work is, and once it is found waiting when its time is over,
it is dropped. -/
theorem polled_within_iff_or {deadline : Timer} {scope : Context} {late : Ending α} :
    (within deadline scope late body).Polled s gaps state s' ↔
      (∀ gap ∈ gaps, gap.before.now < deadline.due ∧ gap.after.now ≤ deadline.due) ∧
        ((∃ ending, state = .ended ending ∧ body.Polled s gaps (.ended ending) s') ∨
          ∃ rest s₁, body.Polled s gaps (.waiting rest) s₁ ∧
            (state, s') = if deadline.due ≤ s₁.now then (.ended late, (rest.drop s₁).cancel scope)
              else (.waiting (within deadline scope late rest), s₁)) := by
  constructor
  · intro h
    generalize hcall : within deadline scope late body = call at h
    induction h generalizing body with
    | once hpoll =>
        subst hcall
        rw [poll] at hpoll
        split at hpoll
        · rename_i hbody
          cases hpoll
          exact ⟨by simp, .inl ⟨_, rfl, .once hbody⟩⟩
        · rename_i rest s₁ hbody
          exact ⟨by simp, .inr ⟨rest, s₁, .once hbody, hpoll.symm⟩⟩
    | again hpoll hprompt _ ih =>
        subst hcall
        rw [poll] at hpoll
        split at hpoll
        · cases hpoll
        · rename_i rest' s₁ hbody
          split at hpoll
          · cases hpoll
          · rename_i hearly
            obtain ⟨hrest', rfl⟩ := Prod.mk.inj hpoll
            obtain rfl := Progress.waiting.inj hrest'
            obtain ⟨hdeadline, hbodyPrompt⟩ := prompt_within_iff.mp hprompt
            obtain ⟨hgaps, hends⟩ := ih rfl
            refine ⟨forall_mem_cons.mpr ⟨⟨Nat.lt_of_not_le hearly, hdeadline⟩, hgaps⟩, ?_⟩
            refine hends.imp ?_ ?_
            · rintro ⟨ending, rfl, hbodyEnds⟩
              exact ⟨ending, rfl, .again hbody hbodyPrompt hbodyEnds⟩
            · rintro ⟨rest, s₁, hwaits, hlate⟩
              exact ⟨rest, s₁, .again hbody hbodyPrompt hwaits, hlate⟩
  · rintro ⟨hgaps, ⟨ending, rfl, hends⟩ | ⟨rest, s₁, hwaits, hlate⟩⟩
    · generalize hstate : Progress.ended ending = state at hends
      induction hends with
      | once hpoll =>
          subst hstate
          exact .once (by rw [poll, hpoll])
      | again hpoll hprompt _ ih =>
          obtain ⟨⟨hearly, hdeadline⟩, hgaps⟩ := forall_mem_cons.mp hgaps
          exact .again (poll_within_of_not_due hpoll (Nat.not_le_of_lt hearly))
            (prompt_within_iff.mpr ⟨hdeadline, hprompt⟩) (ih hgaps hstate)
    · generalize hstate : Progress.waiting rest = left at hwaits
      induction hwaits with
      | once hpoll =>
          subst hstate
          refine .once ?_
          rw [poll, hpoll]
          exact hlate.symm
      | again hpoll hprompt _ ih =>
          obtain ⟨⟨hearly, hdeadline⟩, hgaps⟩ := forall_mem_cons.mp hgaps
          exact .again (poll_within_of_not_due hpoll (Nat.not_le_of_lt hearly))
            (prompt_within_iff.mpr ⟨hdeadline, hprompt⟩) (ih hgaps hlate hstate)

/-! ## The clock -/

/-- Nothing is left later than it was found. -/
theorem Polled.now_le {time : Nat} (h : call.Polled s gaps state s') (hnow : s.now ≤ time)
    (hgaps : ∀ gap ∈ gaps, gap.after.now ≤ time) : s'.now ≤ time := by
  induction h with
  | once hpoll => rwa [now_of_poll hpoll]
  | again _ _ _ ih =>
      obtain ⟨hafter, hgaps⟩ := forall_mem_cons.mp hgaps
      exact ih hafter hgaps

/-- What comes before the first poll comes before what the last one leaves. -/
theorem Polled.later (h : call.Polled s gaps state s')
    (hgaps : ∀ gap ∈ gaps, gap.before.Later gap.after) : s.Later s' := by
  induction h with
  | @once call state s s' hpoll =>
      have hlater := (call.atOnce_poll s).toLater
      rwa [hpoll] at hlater
  | @again call rest state s s' gap gaps hpoll _ _ ih =>
      obtain ⟨hgap, hgaps⟩ := forall_mem_cons.mp hgaps
      have hlater := (call.atOnce_poll s).toLater
      rw [hpoll] at hlater
      exact (hlater.trans hgap).trans (ih hgaps)

/-- What a call comes to, it comes to in some polls, between which there are only such changes. -/
theorem Until.polled {W : Session → Session → Prop} {bound : Option Nat} {I : Session → Prop}
    {Q : Ending α → Session → Prop} (h : call.Until W bound I Q s) :
    call.Until W bound I (fun ending s' => Q ending s' ∧ ∃ gaps,
      call.Polled s gaps (.ended ending) s' ∧ ∀ gap ∈ gaps, W gap.before gap.after) s := by
  induction h with
  | ended hpoll hends => exact .ended hpoll ⟨hends, [], .once hpoll, by simp⟩
  | @waits call rest s s' hpoll hholds _ ih =>
      refine .waits hpoll hholds fun s'' hs'' hlater hbound hprompt => ?_
      refine (ih s'' hs'' hlater hbound hprompt).mono (fun _ hI => hI) ?_
      rintro ending s₁ ⟨hends, gaps, hpolled, hgaps⟩
      exact ⟨hends, ⟨s', s''⟩ :: gaps, .again hpoll hprompt hpolled,
        forall_mem_cons.mpr ⟨hs'', hgaps⟩⟩

/-! ## Counting calls -/

/-- How many calls of an agent were counted from the first session to the last, those in the gaps
apart. -/
def madeIn (s : Session) (gaps : List Gap) (s' : Session) (agent : Nat) : Int :=
  s'.callsOf agent - s.callsOf agent -
    (gaps.map fun gap => (gap.after.callsOf agent - gap.before.callsOf agent : Int)).sum

theorem madeIn_append (s s₁ s' : Session) (gaps gaps' : List Gap) (agent : Nat) :
    madeIn s (gaps ++ gaps') s' agent = madeIn s gaps s₁ agent + madeIn s₁ gaps' s' agent := by
  simp only [madeIn, map_append, sum_append]
  ring

theorem madeIn_of_calls_eq {gap : Gap} (h : gap.before.calls = s.calls) (agent : Nat) :
    madeIn s (gap :: gaps) s' agent = madeIn gap.after gaps s' agent := by
  simp only [madeIn, map_cons, sum_cons, Session.callsOf_eq_of_calls_eq h]
  ring

theorem madeIn_nil_of_calls_eq (h : s'.calls = s.calls) (agent : Nat) :
    madeIn s [] s' agent = 0 := by
  simp [madeIn, Session.callsOf_eq_of_calls_eq h]

theorem madeIn_congr {t t' : Session} (h : t.calls = s.calls) (h' : t'.calls = s'.calls)
    (agent : Nat) : madeIn s gaps s' agent = madeIn t gaps t' agent := by
  simp only [madeIn, Session.callsOf_eq_of_calls_eq h, Session.callsOf_eq_of_calls_eq h']

theorem madeIn_of_passes {due : Nat} (h : s.Passes due gaps s') (agent : Nat) :
    madeIn s gaps s' agent = 0 := by
  induction h with
  | reached => exact madeIn_nil_of_calls_eq rfl agent
  | waits hbefore _ _ _ ih =>
      subst hbefore
      exact (madeIn_of_calls_eq rfl agent).trans ih

theorem madeIn_of_lingers {due : Nat} (h : s.Lingers due gaps s') (agent : Nat) :
    madeIn s gaps s' agent = 0 := by
  induction h with
  | early => exact madeIn_nil_of_calls_eq rfl agent
  | waits hbefore _ _ _ ih =>
      subst hbefore
      exact (madeIn_of_calls_eq rfl agent).trans ih

theorem madeIn_of_sleeps {millis : Nat} (h : s.Sleeps millis gaps s') (agent : Nat) :
    madeIn s gaps s' agent = 0 :=
  (madeIn_of_passes h agent : madeIn (s.setTimer millis).2 gaps s' agent = 0)

theorem madeIn_of_dozes {millis : Nat} (h : s.Dozes millis gaps s') (agent : Nat) :
    madeIn s gaps s' agent = 0 :=
  (madeIn_of_lingers h agent : madeIn (s.setTimer millis).2 gaps s' agent = 0)

theorem Uncounted.madeIn_eq (hcall : call.Uncounted) (h : call.Polled s gaps state s')
    (agent : Nat) : madeIn s gaps s' agent = 0 := by
  induction h with
  | @once call state s s' hpoll =>
      have hcalls := (hcall.poll s).1
      rw [hpoll] at hcalls
      exact madeIn_nil_of_calls_eq hcalls agent
  | @again call rest state s s' gap gaps hpoll _ _ ih =>
      obtain ⟨hcalls, hrest⟩ := hcall.poll s
      rw [hpoll] at hcalls hrest
      exact (madeIn_of_calls_eq hcalls agent).trans (ih (hrest rest rfl))

/-- A call that first of all counts one call of an agent, and none later, counts this one. -/
theorem madeIn_of_number {serial : Nat} {next : Nat → Call α} (hnext : ∀ n, (next n).Uncounted)
    (h : (act (.number serial) next).Polled s gaps state s') (agent : Nat) :
    madeIn s gaps s' agent = if agent = serial then 1 else 0 := by
  have hrest := (hnext (s.callsOf serial)).madeIn_eq (polled_act_iff.mp h) agent
  have hcounted := s.callsOf_countCall serial agent
  change madeIn (s.countCall serial) gaps s' agent = 0 at hrest
  simp only [madeIn, hcounted] at hrest ⊢
  by_cases hagent : agent = serial
  · subst hagent
    simp only [if_true, Nat.cast_add, Nat.cast_one] at hrest ⊢
    omega
  · simpa only [if_neg hagent] using hrest

end Call

/-! ## Executions of agents -/

namespace Agent

variable {ι ω : Kind} {a : Agent ι ω} {input : Datum ι} {c : Context} {s s' : Session}
  {gaps : List Gap} {ending : Ending (Datum ω)}

/-- No execution faults. -/
theorem ne_fault_of_polled (h : (a.execute input c).Polled s gaps (.ended ending) s') (f : Fault) :
    ending ≠ .fault f := by
  obtain ⟨first, gaps₁, gaps₂, s₁, -, -, hcaptured⟩ := Call.polled_andThen_iff.mp h
  rintro rfl
  cases first with
  | value | failure | fault =>
      obtain ⟨-, hending, -⟩ := Call.polled_finish_iff.mp hcaptured
      cases hending

/-- The fault boundary around work that does not fault changes nothing. -/
theorem polled_execute_iff
    (h : ∀ ending, (a.start input c).Polled s gaps (.ended ending) s' → ∀ f, ending ≠ .fault f) :
    (a.execute input c).Polled s gaps (.ended ending) s' ↔
      (a.start input c).Polled s gaps (.ended ending) s' := by
  have hcapture : ∀ ending : Ending (Datum ω), (∀ f, ending ≠ .fault f) →
      captureFault a.name ending = .finish ending := by
    intro ending hending
    cases ending with
    | value | failure => rfl
    | fault f => exact absurd rfl (hending f)
  constructor
  · intro hexecuted
    obtain ⟨first, gaps₁, gaps₂, s₁, rfl, hfirst, hcaptured⟩ := Call.polled_andThen_iff.mp hexecuted
    obtain ⟨result, hresult⟩ : ∃ result, captureFault a.name first = .finish result := by
      cases first <;> exact ⟨_, rfl⟩
    rw [hresult] at hcaptured
    obtain ⟨rfl, hending, rfl⟩ := Call.polled_finish_iff.mp hcaptured
    cases hending
    rw [append_nil] at h ⊢
    rw [hcapture first (h first hfirst)] at hresult
    cases hresult
    exact hfirst
  · intro hstart
    refine Call.polled_andThen_iff.mpr ⟨ending, gaps, [], s', (append_nil gaps).symm, hstart, ?_⟩
    rw [hcapture ending (h ending hstart)]
    exact .once rfl

/-- An execution of an agent that counts its calls counts one. -/
theorem Counted.madeIn_eq {serial : Nat} (ha : a.Counted serial)
    {state : Progress (Call (Datum ω)) (Ending (Datum ω))}
    (h : (a.execute input c).Polled s gaps state s') (agent : Nat) :
    Call.madeIn s gaps s' agent = if agent = serial then 1 else 0 := by
  obtain ⟨next, hstart, hnext⟩ := ha input c
  have hpoll : (a.execute input c).poll s =
      (Call.act (.number serial) fun n => (next n).andThen (captureFault a.name)).poll s := by
    rw [execute, hstart]
    simp only [Call.poll]
  have huncounted : ∀ n, ((next n).andThen (captureFault a.name)).Uncounted := by
    refine fun n => ⟨hnext n, fun ending => ?_⟩
    cases ending <;> trivial
  exact Call.madeIn_of_number huncounted ((Call.polled_iff_of_poll_eq hpoll).mp h) agent

end Agent

end Orchestration
