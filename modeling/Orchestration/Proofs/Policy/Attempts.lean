import Mathlib
import Orchestration.Proofs.Call.Polling
import Orchestration.Proofs.Policy.Transparency
import Orchestration.Timeline

/-! # Attempts and the waits between them

What a retrying agent does is a row of attempts. Each is an execution of the agent on a copy of the
input and under the context that was given. An attempt is the last one exactly if it does not fail
recoverably, or no further one is allowed, or the context is cancelled when it fails, and after each
other one the agent waits as long as its policy says for so many failures. -/

namespace Orchestration

open List

variable {ι ω : Kind}

/-- An attempt as it went: the session in which it started, the gaps between its polls, how it ended,
the session that it left, and the gaps of the wait after it. -/
structure Attempt (ω : Kind) where
  start : Session
  gaps : List Gap
  outcome : Ending (Datum ω)
  finish : Session
  pause : List Gap

/-- Nothing is tried after an attempt with this number: it succeeded or failed for good, as many
attempts as are allowed have been made, or the context is cancelled when it ends. -/
def Attempt.Stops (t : Attempt ω) (most number : Nat) (c : Context) : Prop :=
  t.outcome.Final ∨ number = most ∨ t.finish.isCancelled c = true

/-- From one session to another, the agent is tried again and again, with attempts that are numbered
from the first one on and with this ending. -/
structure Agent.Course (a : Agent ι ω) (backoff : Backoff) (most : Nat) (input : Datum ι)
    (c : Context) (first : Nat) (s : Session) (gaps : List Gap) (ending : Ending (Datum ω))
    (s' : Session) (tries : List (Attempt ω)) : Prop where
  /-- Each attempt is an execution on the same input and under the same context. -/
  executed : ∀ t ∈ tries, (a.execute input c).Polled t.start t.gaps (.ended t.outcome) t.finish
  /-- The first attempt starts at once. -/
  starts : ∃ t ∈ tries.head?, t.start = s
  /-- Before the next attempt, it waits for just as long as the policy says. -/
  pauses : ∀ i t t', tries[i]? = some t → tries[i + 1]? = some t' →
    t.finish.Sleeps (backoff.delay (first + i)).waitMillis t.pause t'.start
  /-- The last attempt is the first one after which nothing is tried. -/
  least : ∀ i t, tries[i]? = some t → (t.Stops most (first + i) c ↔ i + 1 = tries.length)
  /-- With the last attempt it ends. -/
  ends : ∃ t ∈ tries.getLast?, t.pause = [] ∧ t.outcome = ending ∧ t.finish = s'
  /-- There are no other polls. -/
  gaps_eq : gaps = tries.flatMap fun t => t.gaps ++ t.pause

theorem RetryPolicy.succ_furtherAttempts (p : RetryPolicy) :
    p.furtherAttempts + 1 = max 1 p.maxAttempts.toNat := by
  unfold furtherAttempts
  omega

/-- The most attempts that are made. -/
def RetryPolicy.mostAttempts (p : RetryPolicy) : UInt32 :=
  if p.maxAttempts = 0 then 1 else p.maxAttempts

theorem RetryPolicy.toNat_mostAttempts (p : RetryPolicy) :
    p.mostAttempts.toNat = max 1 p.maxAttempts.toNat := by
  unfold mostAttempts
  split
  · rename_i hzero
    rw [hzero]
    rfl
  · rename_i hpos
    have hne : p.maxAttempts.toNat ≠ 0 := fun h => hpos (UInt32.toNat.inj h)
    omega

theorem RetryPolicy.toNat_succ_of_lt {p : RetryPolicy} {attempt : UInt32}
    (h : ¬ p.mostAttempts ≤ attempt) : (attempt + 1).toNat = attempt.toNat + 1 := by
  have hlt : attempt.toNat < p.mostAttempts.toNat := UInt32.lt_iff_toNat_lt.mp (UInt32.not_le.mp h)
  have hmost := p.mostAttempts.toNat_lt
  rw [UInt32.toNat_add, UInt32.toNat_one]
  exact Nat.mod_eq_of_lt (by omega)

namespace Agent

variable {a : Agent ι ω} {backoff : Backoff} {most first : Nat} {input : Datum ι} {c : Context}
  {s s' : Session} {gaps : List Gap} {ending : Ending (Datum ω)} {t t' : Attempt ω}
  {tries : List (Attempt ω)}

/-! ## Courses -/

theorem course_singleton_iff : a.Course backoff most input c first s gaps ending s' [t] ↔
    (a.execute input c).Polled t.start t.gaps (.ended t.outcome) t.finish ∧ t.start = s ∧
      t.Stops most first c ∧ t.pause = [] ∧ t.outcome = ending ∧ t.finish = s' ∧
      gaps = t.gaps := by
  constructor
  · rintro ⟨hexecuted, ⟨_, ⟨rfl⟩, hstart⟩, -, hleast, ⟨_, ⟨rfl⟩, hpause, houtcome, hfinish⟩, rfl⟩
    have hstops := (hleast 0 t rfl).mpr rfl
    change t.pause = [] at hpause
    exact ⟨hexecuted t mem_cons_self, hstart, hstops, hpause, houtcome, hfinish, by simp [hpause]⟩
  · rintro ⟨hexecuted, hstart, hstops, hpause, houtcome, hfinish, rfl⟩
    refine ⟨by simpa using hexecuted, ⟨t, rfl, hstart⟩, by simp, fun i t' hi => ?_,
      ⟨t, rfl, hpause, houtcome, hfinish⟩, by simp [hpause]⟩
    cases i with
    | zero =>
        obtain rfl : t = t' := by simpa using hi
        simpa using hstops
    | succ i => simp at hi

theorem course_cons_iff :
    a.Course backoff most input c first s gaps ending s' (t :: t' :: tries) ↔
      (a.execute input c).Polled t.start t.gaps (.ended t.outcome) t.finish ∧ t.start = s ∧
        ¬ t.Stops most first c ∧
        t.finish.Sleeps (backoff.delay first).waitMillis t.pause t'.start ∧
        ∃ rest, gaps = t.gaps ++ t.pause ++ rest ∧
          a.Course backoff most input c (first + 1) t'.start rest ending s' (t' :: tries) := by
  constructor
  · rintro ⟨hexecuted, ⟨_, ⟨rfl⟩, hstart⟩, hpauses, hleast, hends, rfl⟩
    have hgoes : ¬ t.Stops most first c := fun hstops => by simpa using (hleast 0 t rfl).mp hstops
    refine ⟨hexecuted t mem_cons_self, hstart, hgoes, hpauses 0 t t' rfl rfl,
      _, by rw [flatMap_cons], fun u hu => hexecuted u (mem_cons_of_mem t hu), ⟨t', rfl, rfl⟩,
      fun i u u' hu hu' => ?_, fun i u hu => ?_, by simpa using hends, rfl⟩
    · rw [Nat.add_right_comm]
      exact hpauses (i + 1) u u' hu hu'
    · rw [Nat.add_right_comm]
      exact (hleast (i + 1) u hu).trans Nat.succ_inj
  · rintro ⟨hexecuted, hstart, hgoes, hsleeps, rest, rfl, hrest⟩
    refine ⟨forall_mem_cons.mpr ⟨hexecuted, hrest.executed⟩, ⟨t, rfl, hstart⟩,
      fun i u u' hu hu' => ?_, fun i u hu => ?_, by simpa using hrest.ends,
      by rw [flatMap_cons, ← hrest.gaps_eq]⟩
    · cases i with
      | zero =>
          cases hu
          cases hu'
          exact hsleeps
      | succ i =>
          have hnext := hrest.pauses i u u' hu hu'
          rwa [Nat.add_right_comm] at hnext
    · cases i with
      | zero =>
          cases hu
          simpa using hgoes
      | succ i =>
          have hnext := hrest.least i u hu
          rw [Nat.add_right_comm] at hnext
          exact hnext.trans Nat.succ_inj.symm

theorem not_course_nil : ¬ a.Course backoff most input c first s gaps ending s' [] := by
  rintro ⟨-, ⟨t, ht, -⟩, -⟩
  cases ht

/-- A course begins with an attempt that is the last, or with one that a wait and a course follow. -/
theorem exists_course_iff_or :
    (∃ tries, a.Course backoff most input c first s gaps ending s' tries) ↔
      ∃ t : Attempt ω, t.start = s ∧
        (a.execute input c).Polled t.start t.gaps (.ended t.outcome) t.finish ∧
        ((t.Stops most first c ∧ t.pause = [] ∧ t.outcome = ending ∧ t.finish = s' ∧
            gaps = t.gaps) ∨
          ¬ t.Stops most first c ∧ ∃ rest s₁, gaps = t.gaps ++ t.pause ++ rest ∧
            t.finish.Sleeps (backoff.delay first).waitMillis t.pause s₁ ∧
            ∃ tries, a.Course backoff most input c (first + 1) s₁ rest ending s' tries) := by
  constructor
  · rintro ⟨tries, h⟩
    cases tries with
    | nil => exact absurd h not_course_nil
    | cons t tries =>
        cases tries with
        | nil =>
            obtain ⟨hexecuted, hstart, hlast⟩ := course_singleton_iff.mp h
            exact ⟨t, hstart, hexecuted, .inl hlast⟩
        | cons t' tries =>
            obtain ⟨hexecuted, hstart, hgoes, hsleeps, rest, hgaps, hrest⟩ := course_cons_iff.mp h
            exact ⟨t, hstart, hexecuted, .inr ⟨hgoes, rest, t'.start, hgaps, hsleeps, _, hrest⟩⟩
  · rintro ⟨t, hstart, hexecuted, hlast | ⟨hgoes, rest, s₁, hgaps, hsleeps, tries, hrest⟩⟩
    · exact ⟨[t], course_singleton_iff.mpr ⟨hexecuted, hstart, hlast⟩⟩
    · cases tries with
      | nil => exact absurd hrest not_course_nil
      | cons t' tries =>
          obtain ⟨_, ⟨rfl⟩, rfl⟩ := hrest.starts
          exact ⟨_, course_cons_iff.mpr ⟨hexecuted, hstart, hgoes, hsleeps, rest, hgaps, hrest⟩⟩

/-- Not more attempts are made than are allowed. -/
theorem Course.length_le (h : a.Course backoff most input c first s gaps ending s' tries)
    (hfirst : first ≤ most) : tries.length + first ≤ most + 1 := by
  by_contra hlong
  have hlt : most - first < tries.length := by omega
  have hstops : tries[most - first].Stops most (first + (most - first)) c :=
    .inr (.inl (by omega))
  have hlast := (h.least _ _ (getElem?_eq_getElem hlt)).mp hstops
  omega

/-- An agent that counts its calls is called once in each attempt. -/
theorem Course.madeIn_eq {serial : Nat} (ha : a.Counted serial)
    (h : a.Course backoff most input c first s gaps ending s' tries) :
    Call.madeIn s gaps s' serial = tries.length := by
  induction tries generalizing first s gaps with
  | nil => exact absurd h not_course_nil
  | cons t tries ih =>
      cases tries with
      | nil =>
          obtain ⟨hexecuted, rfl, -, -, -, rfl, rfl⟩ := course_singleton_iff.mp h
          exact (ha.madeIn_eq hexecuted serial).trans (if_pos rfl)
      | cons t' tries =>
          obtain ⟨hexecuted, rfl, -, hsleeps, rest, rfl, hrest⟩ := course_cons_iff.mp h
          rw [Call.madeIn_append _ t'.start, Call.madeIn_append _ t.finish, ha.madeIn_eq hexecuted,
            if_pos rfl, Call.madeIn_of_sleeps hsleeps, ih hrest]
          simp only [length_cons]
          omega

/-! ## Polls of attempts -/

/-- An attempt is followed by nothing if it is the last one, else by a wait and the next attempt. -/
theorem exists_next_attempts (a : Agent ι ω) (backoff : Backoff) (c : Context) (left : Nat)
    {failures : Nat} (hcopy : ∀ f, input.copy failures ≠ .error f) : ∃ next,
      a.attempts backoff input c left failures = (a.execute input c).andThen next ∧
      ∀ t : Attempt ω, (∀ f, t.outcome ≠ .fault f) →
        (t.Stops (failures + left + 1) (failures + 1) c →
          (next t.outcome).poll t.finish = (.ended t.outcome, t.finish)) ∧
        (¬ t.Stops (failures + left + 1) (failures + 1) c →
          (next t.outcome).poll t.finish =
            (Call.sleep (backoff.delay (failures + 1)).waitMillis
              (a.attempts backoff input c (left - 1) (failures + 1))).poll t.finish) := by
  rw [attempts, withCopy_of_copies hcopy]
  refine ⟨_, rfl, fun t hfault => ?_⟩
  have hmost : failures + 1 = failures + left + 1 ↔ left = 0 := by omega
  rw [Attempt.Stops, hmost]
  cases houtcome : t.outcome with
  | value v => exact ⟨fun _ => rfl, fun hgoes => absurd (.inl trivial) hgoes⟩
  | fault f => exact absurd houtcome (hfault f)
  | failure f =>
      by_cases hf : f.recoverable = true
      · have hfinal : ¬ (Ending.failure f : Ending (Datum ω)).Final := by simp [Ending.Final, hf]
        dsimp only
        rw [if_pos hf]
        cases left with
        | zero => simp [Call.poll]
        | succ left =>
            rw [Call.poll]
            by_cases hcancelled : t.finish.isCancelled c = true <;>
              simp [Session.perform, hcancelled, hfinal, Call.poll]
      · refine ⟨fun _ => ?_, fun hgoes => absurd (.inl (Bool.eq_false_iff.mpr hf)) hgoes⟩
        dsimp only
        rw [if_neg hf]
        rfl

/-- The attempts begin with one that is the last, or with one that a wait and the others follow. -/
theorem polled_attempts_iff_or {left failures : Nat}
    (hcopy : ∀ f, input.copy failures ≠ .error f) :
    (a.attempts backoff input c left failures).Polled s gaps (.ended ending) s' ↔
      ∃ t : Attempt ω, t.start = s ∧
        (a.execute input c).Polled t.start t.gaps (.ended t.outcome) t.finish ∧
        ((t.Stops (failures + left + 1) (failures + 1) c ∧ t.pause = [] ∧ t.outcome = ending ∧
            t.finish = s' ∧ gaps = t.gaps) ∨
          ¬ t.Stops (failures + left + 1) (failures + 1) c ∧ ∃ rest s₁,
            gaps = t.gaps ++ t.pause ++ rest ∧
            t.finish.Sleeps (backoff.delay (failures + 1)).waitMillis t.pause s₁ ∧
            (a.attempts backoff input c (left - 1) (failures + 1)).Polled s₁ rest
              (.ended ending) s') := by
  obtain ⟨next, hattempts, hnext⟩ := a.exists_next_attempts backoff c left hcopy
  rw [hattempts, Call.polled_andThen_iff]
  constructor
  · rintro ⟨first, gaps₁, gaps₂, s₁, rfl, hfirst, hrest⟩
    have hfault := ne_fault_of_polled hfirst
    obtain ⟨hlast, hgoes⟩ := hnext ⟨s, gaps₁, first, s₁, []⟩ hfault
    by_cases hstops : Attempt.Stops ⟨s, gaps₁, first, s₁, []⟩ (failures + left + 1) (failures + 1) c
    · have hfinish : (next first).poll s₁ = (Call.finish first).poll s₁ := hlast hstops
      obtain ⟨rfl, hending, rfl⟩ :=
        Call.polled_finish_iff.mp ((Call.polled_iff_of_poll_eq hfinish).mp hrest)
      cases hending
      exact ⟨_, rfl, hfirst, .inl ⟨hstops, rfl, rfl, rfl, append_nil _⟩⟩
    · obtain ⟨pause, rest, s₂, rfl, hpause, hmore⟩ :=
        Call.polled_sleep_iff.mp ((Call.polled_iff_of_poll_eq (hgoes hstops)).mp hrest)
      exact ⟨⟨s, gaps₁, first, s₁, pause⟩, rfl, hfirst,
        .inr ⟨hstops, rest, s₂, (append_assoc _ _ _).symm, hpause, hmore⟩⟩
  · rintro ⟨t, rfl, hexecuted, ⟨hstops, -, rfl, rfl, rfl⟩ | ⟨hstops, rest, s₁, rfl, hpause, hmore⟩⟩
    · have hlast := (hnext t (ne_fault_of_polled hexecuted)).1 hstops
      exact ⟨t.outcome, t.gaps, [], t.finish, (append_nil _).symm, hexecuted, .once hlast⟩
    · have hsleep := (hnext t (ne_fault_of_polled hexecuted)).2 hstops
      refine ⟨t.outcome, t.gaps, t.pause ++ rest, t.finish, append_assoc _ _ _, hexecuted, ?_⟩
      exact (Call.polled_iff_of_poll_eq hsleep).mpr
        (Call.polled_sleep_iff.mpr ⟨t.pause, rest, s₁, rfl, hpause, hmore⟩)

/-- What the attempts come to in the end is what a course comes to. -/
theorem polled_attempts_iff {left failures : Nat}
    (hcopy : ∀ earlier ≥ failures, earlier < failures + left + 1 →
      ∀ f, input.copy earlier ≠ .error f) :
    (a.attempts backoff input c left failures).Polled s gaps (.ended ending) s' ↔
      ∃ tries, a.Course backoff (failures + left + 1) input c (failures + 1) s gaps ending s'
        tries := by
  induction left generalizing failures s gaps with
  | zero =>
      rw [polled_attempts_iff_or (hcopy failures le_rfl (by omega)), exists_course_iff_or]
      refine exists_congr fun t => and_congr_right fun _ => and_congr_right fun _ =>
        or_congr_right ?_
      have hstops : t.Stops (failures + 1) (failures + 1) c := .inr (.inl rfl)
      exact iff_of_false (fun h => h.1 hstops) fun h => h.1 hstops
  | succ left ih =>
      have hnext : ∀ earlier ≥ failures + 1, earlier < failures + 1 + left + 1 →
          ∀ f, input.copy earlier ≠ .error f :=
        fun earlier hle hlt => hcopy earlier (by omega) (by omega)
      rw [polled_attempts_iff_or (hcopy failures le_rfl (by omega)), exists_course_iff_or]
      have hmost : failures + (left + 1) + 1 = failures + 1 + left + 1 := by omega
      simp only [Nat.add_sub_cancel, ih hnext, hmost]

/-! ## The counter -/

/-- The attempts as they are numbered by a word of 32 bits, from the one with a given number on. -/
def counting (a : Agent ι ω) (p : RetryPolicy) (input : Datum ι) (c : Context) (attempt : UInt32) :
    Call (Datum ω) :=
  withCopy input (attempt.toNat - 1) fun copy => (a.execute copy c).andThen fun
    | .failure f =>
      if f.recoverable then
        if h : p.mostAttempts ≤ attempt then .finish (.failure f)
        else .act (.inspect c) fun cancelled =>
          if cancelled then .finish (.failure f)
          else .sleep (p.backoff.delay attempt.toNat).waitMillis
            (a.counting p input c (attempt + 1))
      else .finish (.failure f)
    | ending => .finish ending
termination_by p.mostAttempts.toNat - attempt.toNat
decreasing_by
  have hlt := UInt32.lt_iff_toNat_lt.mp (UInt32.not_le.mp h)
  rw [RetryPolicy.toNat_succ_of_lt h]
  omega

/-- The word never overflows, so the attempts that are left can be counted down instead. -/
theorem counting_eq (a : Agent ι ω) (p : RetryPolicy) (input : Datum ι) (c : Context)
    {left failures : Nat} {attempt : UInt32} (hattempt : attempt.toNat = failures + 1)
    (hleft : attempt.toNat + left = p.mostAttempts.toNat) :
    a.counting p input c attempt = a.attempts p.backoff input c left failures := by
  have hearlier : attempt.toNat - 1 = failures := by omega
  induction left generalizing failures attempt with
  | zero =>
      have hmost : p.mostAttempts ≤ attempt := UInt32.le_iff_toNat_le.mpr (by omega)
      rw [counting, attempts, hearlier]
      refine congrArg _ (funext fun copy => congrArg _ (funext fun ending => ?_))
      cases ending with
      | failure f => exact if_congr Iff.rfl (dif_pos hmost) rfl
      | value | fault => rfl
  | succ left ih =>
      have hmost : ¬ p.mostAttempts ≤ attempt := by
        rw [UInt32.le_iff_toNat_le]
        omega
      have hsucc := RetryPolicy.toNat_succ_of_lt hmost
      have hnext : a.counting p input c (attempt + 1) =
          a.attempts p.backoff input c left (failures + 1) :=
        ih (by omega) (by omega) (by omega)
      rw [counting, attempts, hearlier]
      refine congrArg _ (funext fun copy => congrArg _ (funext fun ending => ?_))
      cases ending with
      | failure f => exact if_congr Iff.rfl ((dif_neg hmost).trans (by rw [hnext, hattempt])) rfl
      | value | fault => rfl

/-! ## All attempts -/

/-- Work on a further copy comes to an end if work on the datum does. -/
theorem until_withCopy {κ : Kind} {α : Type} {W : Session → Session → Prop} {d : Datum κ}
    {next : Datum κ → Call α}
    (h : (next d).Until W none (fun _ => True) (fun _ _ => True) s) (earlier : Nat) :
    (withCopy d earlier next).Until W none (fun _ => True) (fun _ _ => True) s := by
  cases hcopy : d.copy earlier with
  | error f =>
      rw [withCopy_of_error hcopy]
      exact .finish trivial
  | ok copy =>
      rw [withCopy_of_copies (by simp [hcopy])]
      exact h

/-- Attempts of which each comes to an end come to one together. -/
theorem ends_attempts {W : Session → Session → Prop}
    (h : ∀ s, (a.execute input c).Until W none (fun _ => True) (fun _ _ => True) s)
    (left failures : Nat) (s : Session) : (a.attempts backoff input c left failures).Until W none
      (fun _ => True) (fun _ _ => True) s := by
  induction left generalizing failures s with
  | zero =>
      rw [attempts]
      refine until_withCopy ((h s).andThen fun ending s' _ => ?_) failures
      cases ending with
      | failure f => by_cases hf : f.recoverable = true <;> simp [hf, Call.Until.finish]
      | value | fault => exact .finish trivial
  | succ left ih =>
      rw [attempts]
      refine until_withCopy ((h s).andThen fun ending s' _ => ?_) failures
      cases ending with
      | failure f =>
          by_cases hf : f.recoverable = true
          · simp only [hf, if_true]
            refine .act ?_
            by_cases hcancelled : s'.isCancelled c = true
            · simpa [Session.perform, hcancelled] using Call.Until.finish trivial
            · simp only [Session.perform, hcancelled]
              exact .sleep (K := fun _ => True) (fun _ _ _ _ => trivial) (fun _ _ _ => trivial)
                (fun s'' _ _ => ih (failures + 1) s'') trivial
          · simp [hf, Call.Until.finish]
      | value | fault => exact .finish trivial

/-- What a retrying agent comes to in the end is what a course comes to. -/
theorem polled_retrying_iff (p : RetryPolicy)
    (hcopy : ∀ earlier < max 1 p.maxAttempts.toNat, ∀ f, input.copy earlier ≠ .error f) :
    ((a.retrying p).execute input c).Polled s gaps (.ended ending) s' ↔
      ∃ tries, a.Course p.backoff (max 1 p.maxAttempts.toNat) input c 1 s gaps ending s' tries := by
  have hmost : max 1 p.maxAttempts.toNat = 0 + p.furtherAttempts + 1 := by
    rw [← p.succ_furtherAttempts, Nat.zero_add]
  have hstart : ∀ ending, ((a.retrying p).start input c).Polled s gaps (.ended ending) s' ↔
      ∃ tries, a.Course p.backoff (max 1 p.maxAttempts.toNat) input c 1 s gaps ending s' tries := by
    intro ending
    rw [hmost] at hcopy ⊢
    exact polled_attempts_iff fun earlier _ hlt => hcopy earlier hlt
  refine (polled_execute_iff fun ending hending => ?_).trans (hstart ending)
  obtain ⟨tries, h⟩ := (hstart ending).mp hending
  obtain ⟨t, ht, -, rfl, -⟩ := h.ends
  exact ne_fault_of_polled (h.executed t (mem_of_getLast? ht))

/-- However it is polled and whatever happens meanwhile, a retrying agent makes attempts up to the
first one that succeeds or fails for good, that is as many as are allowed, or that ends while the
context is cancelled. It ends as this one does and with it. Each attempt is on a copy of the input
and under the same context, and starts as long after the one before as the policy says. They are not
more than are allowed, which is one at least, so that a word counts them, and an agent that counts
its calls counts as many. If the attempts end, so does the whole. -/
theorem retrying_law (a : Agent ι ω) (p : RetryPolicy) {input copy : Datum ι}
    (hcopy : ∀ earlier < max 1 p.maxAttempts.toNat, input.copy earlier = .ok copy) (c : Context) :
    let most := max 1 p.maxAttempts.toNat
    (∀ s gaps ending s', ((a.retrying p).execute input c).Polled s gaps (.ended ending) s' ↔
      ∃ tries, a.Course p.backoff most copy c 1 s gaps ending s' tries) ∧
    (∀ s gaps ending s' tries, a.Course p.backoff most copy c 1 s gaps ending s' tries →
      1 ≤ tries.length ∧ tries.length ≤ most ∧ tries.length < UInt32.size ∧
      (∀ i t t', tries[i]? = some t → tries[i + 1]? = some t' →
        t'.start.now = t.finish.now + (p.backoff.delay (i + 1)).waitMillis) ∧
      ∀ serial, a.Counted serial → Call.madeIn s gaps s' serial = tries.length) ∧
    (∀ W, (∀ s, (a.execute copy c).Until W none (fun _ => True) (fun _ _ => True) s) →
      ∀ s, ((a.retrying p).execute input c).Until W none (fun _ => True)
        (fun ending s' => ∃ gaps tries, a.Course p.backoff most copy c 1 s gaps ending s' tries ∧
          ∀ gap ∈ gaps, W gap.before gap.after) s) ∧
    (a.retrying p).start input c = a.counting p input c 1 := by
  obtain rfl : copy = input := Datum.eq_of_copy (hcopy 0 (by omega))
  have hcopies : ∀ earlier < max 1 p.maxAttempts.toNat, ∀ f, copy.copy earlier ≠ .error f :=
    fun earlier hlt => by simp [hcopy earlier hlt]
  intro most
  refine ⟨fun s gaps ending s' => polled_retrying_iff p hcopies,
    fun s gaps ending s' tries h => ?_, fun W h s => ?_, ?_⟩
  case refine_1 =>
    have hpos : tries ≠ [] := by
      rintro rfl
      exact not_course_nil h
    have hlength := h.length_le (Nat.le_max_left 1 _)
    have hword : p.maxAttempts.toNat < UInt32.size := p.maxAttempts.toNat_lt
    have hone : 1 < UInt32.size := by decide
    refine ⟨length_pos_iff.mpr hpos, by omega, by omega, fun i t t' ht ht' => ?_,
      fun serial ha => h.madeIn_eq ha⟩
    rw [Nat.add_comm i 1]
    exact (h.pauses i t t' ht ht').now_eq
  case refine_2 =>
    have hexecute : ((a.retrying p).execute copy c).Until W none (fun _ => True)
        (fun _ _ => True) s := by
      refine (ends_attempts h p.furtherAttempts 0 s).andThen fun ending s' _ => ?_
      cases ending <;> exact .finish trivial
    refine hexecute.polled.mono (fun _ hI => hI) ?_
    rintro ending s' ⟨-, gaps, hpolled, hgaps⟩
    obtain ⟨tries, hcourse⟩ := (polled_retrying_iff p hcopies).mp hpolled
    exact ⟨gaps, tries, hcourse, hgaps⟩
  case refine_3 =>
    refine (a.counting_eq p copy c (UInt32.toNat_one) ?_).symm
    rw [p.toNat_mostAttempts, UInt32.toNat_one, RetryPolicy.furtherAttempts]
    omega

/-- An agent whose first call fails at once, and any other after two milliseconds. -/
def flaky : Agent .text .text :=
  .scripted 0 "flaky" "flaky" .shared
    ⟨none, false, none, none, false, false, .fail "" none "no"⟩
    [⟨none, false, none, some (.ofMillis 2), false, false, .fail "" none "no"⟩]

/-- Five attempts with waits of ten milliseconds in between. -/
def fiveTimes : RetryPolicy := .fixed 5 (.ofMillis 10)

/-- The context in which the agent is tried. -/
def flakyContext : Context := ⟨0, ⟨0, []⟩, none⟩

/-- The session after so many calls and timers, with the events since the first call failed. -/
def flakySession (now timers calls : Nat) (cancelled : List Nat) (later : List Entry) : Session :=
  ⟨now, timers, ⟨0, 0, cancelled⟩, [(0, calls)],
    later ++ [⟨0, "flaky", 0, .failed⟩, ⟨0, "flaky", 0, .started (.text "x")⟩], [], []⟩

/-- The second attempt starts at ten milliseconds and fails two milliseconds later. -/
def flakyStart : Entry := ⟨10, "flaky", 1, .started (.text "x")⟩

def flakyEnd : List Entry := [⟨12, "flaky", 1, .failed⟩, flakyStart]

/-- The first attempt, and the wait in which some tokens are cancelled. -/
def flakyFirst (inWait : List Nat) : Attempt .text where
  start := .initial
  gaps := []
  outcome := .failure (.ofAgent "flaky" "no")
  finish := flakySession 0 0 1 [] []
  pause := [⟨flakySession 0 1 1 [] [], flakySession 10 1 1 inWait []⟩]

/-- The second attempt, by whose end the context is cancelled. -/
def flakySecond (inWait : List Nat) : Attempt .text where
  start := flakySession 10 1 1 inWait []
  gaps := [⟨flakySession 10 2 2 inWait [flakyStart], flakySession 12 2 2 [0] [flakyStart]⟩]
  outcome := .failure (.ofAgent "flaky" "no")
  finish := flakySession 12 2 2 [0] flakyEnd
  pause := []

/-- The gaps of the two attempts. -/
def flakyGaps (inWait : List Nat) : List Gap :=
  (flakyFirst inWait).pause ++ (flakySecond inWait).gaps

theorem course_flaky (inWait : List Nat) :
    flaky.Course fiveTimes.backoff 5 (.ofText "x") flakyContext 1 .initial (flakyGaps inWait)
      (.failure (.ofAgent "flaky" "no")) (flakySession 12 2 2 [0] flakyEnd)
      [flakyFirst inWait, flakySecond inWait] := by
  have hfirst : ¬ (flakyFirst inWait).Stops 5 1 flakyContext := by
    rintro (hfinal | hmost | hcancelled)
    · cases hfinal
    · cases hmost
    · cases hcancelled
  refine course_cons_iff.mpr ⟨.once rfl, rfl, hfirst, ?_, _, rfl, course_singleton_iff.mpr ?_⟩
  · exact .waits rfl (by decide : 0 < 10) (Nat.le_refl 10) (.reached rfl)
  · refine ⟨.again rfl ?_ (.once rfl), rfl, .inr (.inr rfl), rfl, rfl, rfl, rfl⟩
    rintro t ⟨rfl⟩
    exact Nat.le_refl 12

/-- Cancelled during the second attempt, the agent makes no third one. -/
theorem retrying_law_cancelled :
    (∀ earlier < max 1 fiveTimes.maxAttempts.toNat,
      (Datum.ofText "x").copy earlier = .ok (.ofText "x")) ∧
    ((flaky.retrying fiveTimes).execute (.ofText "x") flakyContext).Polled .initial (flakyGaps [])
      (.ended (.failure (.ofAgent "flaky" "no"))) (flakySession 12 2 2 [0] flakyEnd) ∧
    Call.madeIn .initial (flakyGaps []) (flakySession 12 2 2 [0] flakyEnd) 0 = 2 := by
  have hcopy : ∀ earlier < max 1 fiveTimes.maxAttempts.toNat,
      (Datum.ofText "x").copy earlier = .ok (.ofText "x") := fun _ _ => rfl
  obtain ⟨hpolled, hcourse, -, -⟩ := flaky.retrying_law fiveTimes hcopy flakyContext
  obtain ⟨-, -, -, -, hcalls⟩ := hcourse _ _ _ _ _ (course_flaky [])
  exact ⟨hcopy, (hpolled _ _ _ _).mpr ⟨_, course_flaky []⟩,
    hcalls 0 (counted_scripted 0 "flaky" "flaky" .shared _ _)⟩

end Agent

end Orchestration
