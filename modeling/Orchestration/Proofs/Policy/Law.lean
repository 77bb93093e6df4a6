import Orchestration.Proofs.Policy.Scripts
import Orchestration.Proofs.Timeline.Alone

/-! # The law of policies

How often an agent under policies is executed, when, and what this comes to, in terms of what its
single executions come to: each of them counts as its time limit leaves it, the first one that does
not call for another is the last, and if the last one calls for another all the same, the stand-in
is executed once. -/

namespace Orchestration

open List

variable {ι ω : Kind} {α : Type}

/-! ## What counts -/

/-- Whether a result calls for another attempt, or for the stand-in. -/
def recoverable : Except Failure α → Bool
  | .ok _ => false
  | .error f => f.recoverable

/-- Whether an execution ends, but calls for another. -/
def Fate.again : Fate α → Bool
  | ends _ result => recoverable result
  | never => false

theorem Fate.exists_of_again {fate : Fate α} (h : fate.again = true) :
    ∃ millis f, fate = .ends millis (.error f) ∧ f.recoverable = true := by
  cases fate with
  | never => cases h
  | ends millis result =>
      cases result with
      | ok v => cases h
      | error f => exact ⟨millis, f, rfl, h⟩

/-- The stand-in's value, or else the first result. -/
def orFirst : Except Failure α → Except Failure α → Except Failure α
  | .ok v, _ => .ok v
  | .error _, first => first

namespace PolicySet

variable (p : PolicySet ι ω)

/-- How many attempts there are at most. -/
def maxAttempts : Nat := p.retry.elim 1 fun r => max 1 r.maxAttempts.toNat

theorem maxAttempts_pos : 0 < p.maxAttempts := by
  unfold maxAttempts
  cases p.retry with
  | none => exact Nat.one_pos
  | some r => exact Nat.lt_of_lt_of_le Nat.one_pos (Nat.le_max_left ..)

/-- The time between so many failed attempts and the next one. -/
def pause (failures : Nat) : Nat :=
  p.retry.elim 0 fun r => (r.backoff.delay failures).waitMillis

/-- What an attempt under the context counts as. -/
def counted (c : Context) (fate : Fate α) : Fate α :=
  p.timeout.elim fate (fate.limited · (c.node.getD ""))

/-- When an attempt starts that comes after so many others. -/
def startOf (c : Context) (fate : Nat → Fate α) (start : Nat) : Nat → Nat
  | 0 => start
  | j + 1 => startOf c fate start j + (p.counted c (fate j)).millis + p.pause (j + 1)

end PolicySet

/-- One attempt is the last: the first that does not call for another, or the last possible one. -/
theorem exists_last (course : Nat → Fate α) {most : Nat} (hmost : 0 < most) :
    ∃ last < most, (∀ j < last, (course j).again = true) ∧
      ((course last).again = true → last + 1 = most) := by
  induction most with
  | zero => exact absurd hmost (Nat.lt_irrefl 0)
  | succ n ih =>
      rcases Nat.eq_zero_or_pos n with rfl | hn
      · exact ⟨0, Nat.one_pos, fun j hj => absurd hj (Nat.not_lt_zero j), fun _ => rfl⟩
      · obtain ⟨last, hlt, hagain, hfinal⟩ := ih hn
        by_cases hmore : (course last).again = true
        · refine ⟨n, Nat.lt_succ_self n, fun j hj => ?_, fun _ => rfl⟩
          have hn := hfinal hmore
          rcases Nat.lt_or_eq_of_le (show j ≤ last by omega) with hj | rfl
          · exact hagain j hj
          · exact hmore
        · exact ⟨last, Nat.lt_succ_of_lt hlt, hagain, fun h => absurd h hmore⟩

/-! ## Attempts -/

/-- What is known of an agent that is tried under policies: its executions under the given context,
or under one that is derived from it for the attempt, come to these fates. -/
structure Agent.Tried (E : Surroundings) (a : Agent ι ω) (p : PolicySet ι ω) (input : Datum ι)
    (made : List Nat) (fate : Nat → Fate (Datum ω)) (s : Session) : Prop where
  copies : ∀ earlier < p.maxAttempts, input.copy earlier = .ok input
  calm : s.Calm E.context
  takes : ∀ j < p.maxAttempts, ∀ own s', own.Under E.context → own.node = E.context.node →
    E.Spent (replicate j made).flatten s s' →
    s'.now = p.startOf E.context fate s.now j → s'.Calm own →
    (a.execute input own).Takes E made s' (fate j)

/-- Attempt after attempt has started in time, and the one after so many is the last. -/
def PolicySet.Paced (p : PolicySet ι ω) (E : Surroundings) (made : List Nat) (fate : Nat → Fate α)
    (s : Session) (last : Nat) (s' : Session) : Prop :=
  ∃ j ≤ last, E.Spent (replicate (j + 1) made).flatten s s' ∧
    p.startOf E.context fate s.now j ≤ s'.now ∧
    (j < last → s'.now < p.startOf E.context fate s.now (j + 1))

section Attempts

variable {E : Surroundings} {a : Agent ι ω} {p : PolicySet ι ω} {input : Datum ι} {made : List Nat}
  {fate : Nat → Fate (Datum ω)} {s : Session} {bound : Option Nat} {I : Session → Prop}
  {Q : Ending (Datum ω) → Session → Prop}

theorem flatten_replicate_succ (made : List α) (j : Nat) :
    (replicate (j + 1) made).flatten = (replicate j made).flatten ++ made := by
  simp [replicate_succ']

/-- Under a time limit, an attempt comes to what it counts as. -/
theorem Agent.Tried.takes_timed (h : a.Tried E p input made fate s) {j : Nat}
    (hj : j < p.maxAttempts) {s' : Session} (hspent : E.Spent (replicate j made).flatten s s')
    (hnow : s'.now = p.startOf E.context fate s.now j) :
    ((p.timeout.elim a a.timingOut).execute input E.context).Takes E made s'
      (p.counted E.context (fate j)) := by
  have hcalm := hspent.calm h.calm
  cases htimeout : p.timeout with
  | none =>
      rw [PolicySet.counted, htimeout]
      exact h.takes j hj E.context s' mem_cons_self rfl hspent hnow hcalm
  | some limit =>
      rw [PolicySet.counted, htimeout]
      refine Agent.takes_timingOut hcalm fun own hunder hnode hown => ?_
      refine h.takes j hj own _ hunder hnode ?_ hnow hown
      exact hspent.trans_nil (.timed s' E.context E.context limit)

/-- An attempt that calls for another, and the pause after it. -/
theorem Agent.until_next_attempt {backoff : Backoff} {left j millis : Nat}
    (hcopy : input.copy j = .ok input) (hs : s.Calm E.context) {f : Failure}
    (hf : f.recoverable = true)
    (htakes : (a.execute input E.context).Takes E made s (.ends millis (.error f)))
    (hI : ∀ s', E.Spent made s s' →
      s'.now < s.now + millis + (backoff.delay (j + 1)).waitMillis → I s')
    (hnext : ∀ s', E.Spent made s s' →
      s'.now = s.now + millis + (backoff.delay (j + 1)).waitMillis →
      (a.attempts backoff input E.context left (j + 1)).Until E.change bound I Q s') :
    (a.attempts backoff input E.context (left + 1) j).Until E.change bound I Q s := by
  rw [attempts, withCopy, hcopy]
  refine Call.Until.andThen ((Call.Until.bounded htakes).mono ?_ fun _ _ hQ => hQ) ?_
  · rintro s' ⟨hspent, hearly⟩
    exact hI s' hspent (by omega)
  · rintro _ s' ⟨rfl, hspent, htime⟩
    have huncancelled := (hspent.calm hs).uncancelled
    simp only [Ending.ofResult, hf, if_true]
    refine .act ?_
    simp only [Session.perform, huncancelled, Bool.false_eq_true, if_false]
    refine Call.Until.sleep (K := E.Spent made s) (fun s₁ s₂ hchange hs₁ => hs₁.of_change hchange)
      ?_ ?_ (hspent.trans_nil (.setTimer s' _))
    · intro s₁ hs₁ hearly
      exact hI s₁ hs₁ (by omega)
    · intro s₁ hs₁ hnow
      exact hnext s₁ hs₁ (by omega)

/-- What is left of the attempts comes to what the last of them comes to. -/
theorem Agent.until_attempts {backoff : Backoff} {left last : Nat}
    (hcopy : ∀ j < last, input.copy j = .ok input) (hs : s.Calm E.context)
    (course : Nat → Fate (Datum ω)) (start : Nat → Nat)
    (hstart : ∀ j, start (j + 1) =
      start j + (course j).millis + (backoff.delay (j + 1)).waitMillis)
    (htakes : ∀ j < last, ∀ s', E.Spent (replicate j made).flatten s s' → s'.now = start j →
      (a.execute input E.context).Takes E made s' (course j))
    (hagain : ∀ j < last, (course j).again = true)
    (hI : ∀ j < last, ∀ s', E.Spent (replicate (j + 1) made).flatten s s' → start j ≤ s'.now →
      s'.now < start (j + 1) → I s')
    (hlast : ∀ s', E.Spent (replicate last made).flatten s s' → s'.now = start last →
      (a.attempts backoff input E.context left last).Until E.change bound I Q s')
    {n j : Nat} (hn : j + n = last) {s' : Session}
    (hspent : E.Spent (replicate j made).flatten s s') (hnow : s'.now = start j) :
    (a.attempts backoff input E.context (n + left) j).Until E.change bound I Q s' := by
  induction n generalizing j s' with
  | zero =>
      obtain rfl : j = last := hn
      rw [Nat.zero_add]
      exact hlast s' hspent hnow
  | succ n ih =>
      have hj : j < last := by omega
      have hattempt := htakes j hj s' hspent hnow
      have hnext := hstart j
      obtain ⟨millis, f, hcourse, hf⟩ := Fate.exists_of_again (hagain j hj)
      rw [hcourse] at hattempt hnext
      have hafter : ∀ {s''}, E.Spent made s' s'' →
          E.Spent (replicate (j + 1) made).flatten s s'' := by
        intro s'' hs''
        rw [flatten_replicate_succ]
        exact hspent.trans hs''
      rw [show n + 1 + left = (n + left) + 1 by omega]
      refine Agent.until_next_attempt (hcopy j hj) (hspent.calm hs) hf hattempt ?_ ?_
      · intro s'' hs'' hearly
        exact hI j hj s'' (hafter hs'') (hnow ▸ hs''.now) (by rwa [hnext, ← hnow])
      · intro s'' hs'' htime
        exact ih (by omega) (hafter hs'') (by rwa [hnext, ← hnow])

/-- The last attempt, which leaves none or calls for no other. -/
theorem Agent.until_last_attempt {backoff : Backoff} {left j millis : Nat}
    (hcopy : input.copy j = .ok input) {result : Except Failure (Datum ω)}
    (htakes : (a.execute input E.context).Takes E made s (.ends millis result))
    (hfinal : recoverable result = true → left = 0)
    (hI : ∀ s', E.Spent made s s' → I s')
    (hQ : ∀ s', E.Spent made s s' → s'.now = s.now + millis → Q (.ofResult result) s') :
    (a.attempts backoff input E.context left j).Until E.change bound I Q s := by
  rw [attempts, withCopy, hcopy]
  refine Call.Until.andThen ((Call.Until.bounded htakes).mono (fun s' hs' => hI s' hs'.1)
    fun _ _ hQ => hQ) ?_
  rintro _ s' ⟨rfl, hspent, htime⟩
  have hends := hQ s' hspent htime
  cases result with
  | ok v => exact .finish hends
  | error f =>
      by_cases hf : f.recoverable = true
      · obtain rfl := hfinal hf
        simp only [Ending.ofResult, hf, if_true]
        exact .finish hends
      · simp only [Ending.ofResult, hf]
        exact .finish hends

/-- An attempt that never ends. -/
theorem Agent.until_hanging_attempt {backoff : Backoff} {left j : Nat}
    (hcopy : input.copy j = .ok input) (htakes : (a.execute input E.context).Takes E made s .never)
    (hI : ∀ s', E.Spent made s s' → I s') (time : Nat) :
    (a.attempts backoff input E.context left j).Until E.change (some time) I
      (fun _ _ => False) s := by
  rw [attempts, withCopy, hcopy]
  exact Call.Until.andThen ((htakes time).mono hI fun _ _ hQ => hQ) fun _ _ => False.elim

/-- The agent with further attempts and a time limit, but without the stand-in. -/
def Agent.repeated (a : Agent ι ω) (p : PolicySet ι ω) : Agent ι ω :=
  p.retry.elim (p.timeout.elim a a.timingOut) (p.timeout.elim a a.timingOut).retrying

/-- With further attempts, what the last attempt comes to is what all of them come to. -/
theorem Agent.Tried.until_retried (h : a.Tried E p input made fate s) {r : RetryPolicy}
    (hretry : p.retry = some r) {last : Nat} (hlast : last < p.maxAttempts)
    (hagain : ∀ j < last, (p.counted E.context (fate j)).again = true)
    (hI : ∀ s', p.Paced E made fate s last s' → I s')
    (hattempt : ∀ s', E.Spent (replicate last made).flatten s s' →
      s'.now = p.startOf E.context fate s.now last →
      ((p.timeout.elim a a.timingOut).attempts r.backoff input E.context
        (p.maxAttempts - 1 - last) last).Until E.change bound I Q s')
    (hresult : ∀ ending s', Q ending s' → ∃ result, ending = .ofResult result) :
    ((a.repeated p).execute input E.context).Until E.change bound I Q s := by
  have hmax : p.maxAttempts = max 1 r.maxAttempts.toNat := by
    rw [PolicySet.maxAttempts, hretry, Option.elim_some]
  have hpause : ∀ j, p.pause j = (r.backoff.delay j).waitMillis := by
    intro j
    rw [PolicySet.pause, hretry, Option.elim_some]
  have hfurther : r.furtherAttempts = last + (p.maxAttempts - 1 - last) := by
    unfold RetryPolicy.furtherAttempts
    omega
  have hstart : ∀ b : Agent ι ω, (b.retrying r).start input E.context =
      b.attempts r.backoff input E.context (last + (p.maxAttempts - 1 - last)) 0 := by
    intro b
    rw [retrying, hfurther]
  rw [repeated, hretry, Option.elim_some]
  refine Agent.until_execute ?_ hresult
  rw [hstart]
  refine Agent.until_attempts (fun j hj => h.copies j (Nat.lt_trans hj hlast)) h.calm
    (fun j => p.counted E.context (fate j)) (p.startOf E.context fate s.now) ?_ ?_ hagain ?_
    hattempt (Nat.zero_add last) (.refl s) rfl
  · intro j
    rw [PolicySet.startOf, hpause]
  · exact fun j hj s' hspent hnow => h.takes_timed (by omega) hspent hnow
  · exact fun j hj s' hspent hle hlt => hI s' ⟨j, Nat.le_of_lt hj, hspent, hle, fun _ => hlt⟩

/-- While the last attempt works, all have started in time. -/
theorem PolicySet.paced_of_last {last : Nat} {s' s'' : Session}
    (hspent : E.Spent (replicate last made).flatten s s')
    (hnow : s'.now = p.startOf E.context fate s.now last) (hspent' : E.Spent made s' s'') :
    p.Paced E made fate s last s'' := by
  refine ⟨last, Nat.le_refl _, ?_, hnow ▸ hspent'.now, fun hlt => absurd hlt (Nat.lt_irrefl _)⟩
  rw [flatten_replicate_succ]
  exact hspent.trans hspent'

section Last

variable {last : Nat} (h : a.Tried E p input made fate s) (hlast : last < p.maxAttempts)
  (hagain : ∀ j < last, (p.counted E.context (fate j)).again = true)
  (hI : ∀ s', p.Paced E made fate s last s' → I s')

include h hlast hagain hI

/-- If the last attempt ends, so do the attempts. -/
theorem Agent.Tried.until_ends {millis : Nat} {result : Except Failure (Datum ω)}
    (hfate : p.counted E.context (fate last) = .ends millis result)
    (hfinal : recoverable result = true → last + 1 = p.maxAttempts)
    (hQ : ∀ s', E.Spent (replicate (last + 1) made).flatten s s' →
      s'.now = p.startOf E.context fate s.now last + millis → Q (.ofResult result) s')
    (hresult : ∀ ending s', Q ending s' → ∃ result, ending = .ofResult result) :
    ((a.repeated p).execute input E.context).Until E.change bound I Q s := by
  have htakes : ∀ s', E.Spent (replicate last made).flatten s s' →
      s'.now = p.startOf E.context fate s.now last →
      ((p.timeout.elim a a.timingOut).execute input E.context).Takes E made s'
        (.ends millis result) := by
    intro s' hspent hnow
    rw [← hfate]
    exact h.takes_timed hlast hspent hnow
  have hends : ∀ s', E.Spent (replicate last made).flatten s s' →
      s'.now = p.startOf E.context fate s.now last → ∀ s'', E.Spent made s' s'' →
      s''.now = s'.now + millis → Q (.ofResult result) s'' := by
    intro s' hspent hnow s'' hspent' htime
    refine hQ s'' ?_ (by rw [htime, hnow])
    rw [flatten_replicate_succ]
    exact hspent.trans hspent'
  cases hretry : p.retry with
  | none =>
      obtain rfl : last = 0 := by simpa [PolicySet.maxAttempts, hretry] using hlast
      rw [repeated, hretry]
      refine (Call.Until.bounded (htakes s (.refl s) rfl)).mono
        (fun s' hs' => hI s' (PolicySet.paced_of_last (.refl s) rfl hs'.1)) ?_
      rintro _ s' ⟨rfl, hspent, htime⟩
      exact hends s (.refl s) rfl s' hspent htime
  | some r =>
      refine h.until_retried hretry hlast hagain hI (fun s' hspent hnow => ?_) hresult
      refine Agent.until_last_attempt (h.copies last hlast) (htakes s' hspent hnow) ?_
        (fun s'' hs'' => hI s'' (PolicySet.paced_of_last hspent hnow hs'')) (hends s' hspent hnow)
      intro hmore
      have hmost := hfinal hmore
      omega

/-- If the last attempt hangs, so do the attempts. -/
theorem Agent.Tried.until_hangs (hfate : p.counted E.context (fate last) = .never) (time : Nat) :
    ((a.repeated p).execute input E.context).Until E.change (some time) I (fun _ _ => False) s := by
  have htakes : ∀ s', E.Spent (replicate last made).flatten s s' →
      s'.now = p.startOf E.context fate s.now last →
      ((p.timeout.elim a a.timingOut).execute input E.context).Takes E made s' .never := by
    intro s' hspent hnow
    rw [← hfate]
    exact h.takes_timed hlast hspent hnow
  cases hretry : p.retry with
  | none =>
      obtain rfl : last = 0 := by simpa [PolicySet.maxAttempts, hretry] using hlast
      rw [repeated, hretry]
      exact (htakes s (.refl s) rfl time).mono
        (fun s' hs' => hI s' (PolicySet.paced_of_last (.refl s) rfl hs')) fun _ _ hQ => hQ
  | some r =>
      refine h.until_retried hretry hlast hagain hI (fun s' hspent hnow => ?_) fun _ _ => False.elim
      exact Agent.until_hanging_attempt (h.copies last hlast) (htakes s' hspent hnow)
        (fun s'' hs'' => hI s'' (PolicySet.paced_of_last hspent hnow hs'')) time

end Last

/-! ## The stand-in -/

theorem Agent.withPolicies_eq (a : Agent ι ω) (p : PolicySet ι ω) :
    a.withPolicies p = p.fallback.elim (a.repeated p) (a.repeated p).orElse := rfl

/-- The stand-in is executed where the primary has failed recoverably. -/
theorem Agent.until_orElse {b : Agent ι ω} (hcopy : input.copy 0 = .ok input)
    {result : Except Failure (Datum ω)} {R : Session → Prop}
    (h : (a.execute input E.context).Until E.change bound I
      (fun ending s' => ending = .ofResult result ∧ R s') s)
    (hdone : recoverable result = false → ∀ s', R s' → Q (.ofResult result) s')
    (hstandIn : recoverable result = true → ∀ s', R s' →
      (b.execute input E.context).Until E.change bound I
        (fun ending s'' => ∃ result', ending = .ofResult result' ∧
          Q (.ofResult (orFirst result' result)) s'') s') :
    ((a.orElse b).start input E.context).Until E.change bound I Q s := by
  change (withCopy input 0 _).Until _ _ _ _ _
  rw [withCopy, hcopy]
  refine Call.Until.andThen h ?_
  rintro _ s' ⟨rfl, hs'⟩
  cases result with
  | ok v => exact .finish (hdone rfl s' hs')
  | error f =>
      cases hf : f.recoverable with
      | false =>
          simp only [Ending.ofResult, hf, Bool.false_eq_true, if_false]
          exact .finish (hdone hf s' hs')
      | true =>
          simp only [Ending.ofResult, hf, if_true]
          refine Call.Until.andThen (hstandIn hf s' hs') ?_
          rintro _ s'' ⟨result', rfl, hends⟩
          cases result' with
          | ok v => exact .finish hends
          | error f' => exact .finish hends

/-- What the last attempt comes to is final, unless it calls for a stand-in that there is. -/
theorem Agent.Tried.until_withPolicies (h : a.Tried E p input made fate s) {last : Nat}
    (hlast : last < p.maxAttempts)
    (hagain : ∀ j < last, (p.counted E.context (fate j)).again = true)
    (hI : ∀ s', p.Paced E made fate s last s' → I s')
    {millis : Nat} {result : Except Failure (Datum ω)}
    (hfate : p.counted E.context (fate last) = .ends millis result)
    (hfinal : recoverable result = true → last + 1 = p.maxAttempts)
    (hdone : p.fallback = none ∨ recoverable result = false → ∀ s',
      E.Spent (replicate (last + 1) made).flatten s s' →
      s'.now = p.startOf E.context fate s.now last + millis → Q (.ofResult result) s')
    (hstandIn : ∀ b ∈ p.fallback, recoverable result = true → ∀ s',
      E.Spent (replicate (last + 1) made).flatten s s' →
      s'.now = p.startOf E.context fate s.now last + millis →
      (b.execute input E.context).Until E.change bound I
        (fun ending s'' => ∃ result', ending = .ofResult result' ∧
          Q (.ofResult (orFirst result' result)) s'') s')
    (hresult : ∀ ending s', Q ending s' → ∃ result, ending = .ofResult result) :
    ((a.withPolicies p).execute input E.context).Until E.change bound I Q s := by
  rw [Agent.withPolicies_eq]
  cases hfallback : p.fallback with
  | none => exact h.until_ends hlast hagain hI hfate hfinal (hdone (.inl hfallback)) hresult
  | some b =>
      have htried : ((a.repeated p).execute input E.context).Until E.change bound I
          (fun ending s' => ending = .ofResult result ∧
            E.Spent (replicate (last + 1) made).flatten s s' ∧
            s'.now = p.startOf E.context fate s.now last + millis) s :=
        h.until_ends hlast hagain hI hfate hfinal (fun s' hspent htime => ⟨rfl, hspent, htime⟩)
          fun _ _ hends => ⟨_, hends.1⟩
      refine Agent.until_execute (Agent.until_orElse (h.copies 0 p.maxAttempts_pos) htried ?_ ?_)
        hresult
      · exact fun hdifferent s' hs' => hdone (.inr hdifferent) s' hs'.1 hs'.2
      · exact fun hmore s' hs' => hstandIn b hfallback hmore s' hs'.1 hs'.2

end Attempts

/-! ## What a call comes to -/

section

open Timeline

/-- The call ends at some time, whenever it is polled and on a timeline of its own. By then just
these agents have been called. -/
structure Call.ComesTo (E : Surroundings) (call : Call α) (s : Session) (I : Session → Prop)
    (ending : Ending α) (time : Nat) (made : List Nat) : Prop where
  polled : call.Until E.change none I
    (fun ending' s' => ending' = ending ∧ s'.now = time ∧ E.Spent made s s') s
  alone : (∀ (s : Session) (time : Nat), s.now < time → E.change s (s.advance time)) →
    ∀ start horizon, time < horizon → ∃ s',
      settle start horizon (Timeline.alone call (some E.context)) s =
        ([⟨some ending, time - start, false⟩], s') ∧ E.Spent made s s'

/-- The call does not end, whenever it is polled. On a timeline of its own it is dropped in the
end. -/
structure Call.NeverEnds (E : Surroundings) (call : Call α) (s : Session) (I : Session → Prop) :
    Prop where
  polled : ∀ time, call.Until E.change (some time) I (fun _ _ => False) s
  alone : (∀ (s : Session) (time : Nat), s.now < time → E.change s (s.advance time)) →
    ∀ start horizon, s.now ≤ horizon → ∃ s' s'',
      settle start horizon (Timeline.alone call (some E.context)) s =
        ([⟨none, horizon - start, false⟩], s'') ∧ I s' ∧ s'.calls = s''.calls

variable {E : Surroundings} {call : Call α} {s : Session} {I : Session → Prop}

theorem Call.ComesTo.of_until (hs : s.Calm E.context) {ending : Ending α} {time : Nat}
    {made : List Nat} (h : call.Until E.change none I
      (fun ending' s' => ending' = ending ∧ s'.now = time ∧ E.Spent made s s') s) :
    call.ComesTo E s I ending time made := by
  refine ⟨h, fun hchange start horizon htime => ?_⟩
  obtain ⟨_, s', ⟨rfl, hnow, hspent⟩, hsettle⟩ := settle_alone_of_until
    (some E.context) start hchange h fun _ _ hends => hends.2.1 ▸ htime
  refine ⟨s', ?_, hspent⟩
  rw [hsettle, reportAt, hnow]
  simp [(hspent.calm hs).uncancelled]

theorem Call.NeverEnds.of_until (hI : ∀ s', I s' → s'.Calm E.context)
    (h : ∀ time, call.Until E.change (some time) I (fun _ _ => False) s) :
    call.NeverEnds E s I := by
  refine ⟨h, fun hchange start horizon hnow => ?_⟩
  obtain ⟨rest, s', hs', htime, hsettle⟩ := settle_alone_of_never
    (some E.context) start hchange (h horizon) hnow
  refine ⟨s', rest.drop s', ?_, hs', (Call.drop_calls rest s').symm⟩
  have hdropped : (rest.drop s').isCancelled E.context = false := by
    have huncancelled := (hI s' hs').uncancelled
    rwa [Session.isCancelled, ← Call.drop_registry rest s'] at huncancelled
  rw [hsettle, reportAt, Call.drop_now, htime]
  simp [hdropped]

end

/-! ## The law -/

/-- What an agent under policies comes to when the attempt after so many others is the last one. -/
structure Agent.Lawful (E : Surroundings) (a : Agent ι ω) (p : PolicySet ι ω) (input : Datum ι)
    (made : List Nat) (fate : Nat → Fate (Datum ω)) (s : Session) (last : Nat) : Prop where
  /-- If the last attempt never ends, nothing ever ends. -/
  hangs : p.counted E.context (fate last) = .never →
    ((a.withPolicies p).execute input E.context).NeverEnds E s (p.Paced E made fate s last)
  /-- Its result stands, unless it calls for a stand-in that there is. -/
  stands : ∀ millis result, p.counted E.context (fate last) = .ends millis result →
    p.fallback = none ∨ recoverable result = false →
    ((a.withPolicies p).execute input E.context).ComesTo E s (p.Paced E made fate s last)
      (.ofResult result) (p.startOf E.context fate s.now last + millis)
      (replicate (last + 1) made).flatten
  /-- Otherwise the stand-in is executed once, at once and on the same input and context, and its
  value counts if it yields one. -/
  standIn : ∀ b ∈ p.fallback, ∀ millis result,
    p.counted E.context (fate last) = .ends millis result → recoverable result = true →
    let time := p.startOf E.context fate s.now last + millis
    let calls := (replicate (last + 1) made).flatten
    ∀ made' fate', (∀ s', E.Spent calls s s' → s'.now = time →
      (b.execute input E.context).Takes E made' s' fate') →
    let I s' := p.Paced E made fate s last s' ∨ E.Spent (calls ++ made') s s' ∧ time ≤ s'.now
    (fate' = .never → ((a.withPolicies p).execute input E.context).NeverEnds E s I) ∧
    ∀ millis' result', fate' = .ends millis' result' →
      ((a.withPolicies p).execute input E.context).ComesTo E s I
        (.ofResult (orFirst result' result)) (time + millis') (calls ++ made')

theorem Agent.Tried.lawful {E : Surroundings} {a : Agent ι ω} {p : PolicySet ι ω}
    {input : Datum ι} {made : List Nat} {fate : Nat → Fate (Datum ω)} {s : Session}
    (h : a.Tried E p input made fate s) {last : Nat} (hlast : last < p.maxAttempts)
    (hagain : ∀ j < last, (p.counted E.context (fate j)).again = true)
    (hfinal : (p.counted E.context (fate last)).again = true → last + 1 = p.maxAttempts) :
    a.Lawful E p input made fate s last := by
  have hcalm : ∀ s', p.Paced E made fate s last s' → s'.Calm E.context := by
    rintro s' ⟨j, -, hspent, -⟩
    exact hspent.calm h.calm
  constructor
  case hangs =>
    intro hfate
    refine .of_until hcalm fun time => ?_
    have htried := h.until_hangs hlast hagain (fun _ hs' => hs') hfate time
    rw [Agent.withPolicies_eq]
    cases p.fallback with
    | none => exact htried
    | some b =>
        refine Agent.until_execute ?_ fun _ _ => False.elim
        change (withCopy input 0 _).Until _ _ _ _ _
        rw [withCopy, h.copies 0 p.maxAttempts_pos]
        exact Call.Until.andThen htried fun _ _ => False.elim
  case stands =>
    intro millis result hfate hdone
    refine .of_until h.calm (h.until_withPolicies hlast hagain (fun _ hs' => hs') hfate ?_ ?_ ?_ ?_)
    · rwa [hfate] at hfinal
    · exact fun _ s' hspent htime => ⟨rfl, htime, hspent⟩
    · intro b hb hmore
      rw [Option.mem_def.mp hb, hmore] at hdone
      simp at hdone
    · exact fun _ _ hends => ⟨result, hends.1⟩
  case standIn =>
    intro b hb millis result hfate hmore time calls made' fate' htakes I
    have hnone : ¬ (p.fallback = none ∨ recoverable result = false) := by
      rw [Option.mem_def.mp hb, hmore]
      simp
    have hfinal' : recoverable result = true → last + 1 = p.maxAttempts := by rwa [hfate] at hfinal
    have hstandIn : ∀ s', E.Spent calls s s' → s'.now = time → ∀ s'', E.Spent made' s' s'' →
        I s'' :=
      fun s' hspent htime s'' hspent' => .inr ⟨hspent.trans hspent', htime ▸ hspent'.now⟩
    constructor
    · rintro rfl
      refine .of_until ?_ fun time' => h.until_withPolicies hlast hagain (fun _ => .inl) hfate
        hfinal' ?_ ?_ ?_
      · rintro s' (hpaced | ⟨hspent, -⟩)
        · exact hcalm s' hpaced
        · exact hspent.calm h.calm
      · exact fun hdone => absurd hdone hnone
      · intro b' hb' _ s' hspent htime
        obtain rfl := Option.mem_unique hb hb'
        exact (htakes s' hspent htime time').mono (hstandIn s' hspent htime) fun _ _ => False.elim
      · exact fun _ _ => False.elim
    · rintro millis' result' rfl
      refine .of_until h.calm (h.until_withPolicies hlast hagain (fun _ => .inl) hfate hfinal'
        ?_ ?_ ?_)
      · exact fun hdone => absurd hdone hnone
      · intro b' hb' _ s' hspent htime
        obtain rfl := Option.mem_unique hb hb'
        refine Call.Until.mono (htakes s' hspent htime)
          (fun s'' hs'' => hstandIn s' hspent htime s'' hs''.1) ?_
        rintro _ s'' ⟨rfl, hspent', htime'⟩
        exact ⟨result', rfl, rfl, by rw [htime', htime], hspent.trans hspent'⟩
      · exact fun _ _ hends => ⟨_, hends.1⟩

/-- Executed under policies, an agent is tried until an attempt counts as final, or no attempt is
left. Each attempt starts when the pause after the one before it is over. The result of the last one
stands, unless it calls for the stand-in, if there is one; then this is executed once, and its value
counts. -/
theorem Agent.withPolicies_law {E : Surroundings} {a : Agent ι ω} {p : PolicySet ι ω}
    {input : Datum ι} {made : List Nat} {fate : Nat → Fate (Datum ω)} {s : Session}
    (h : a.Tried E p input made fate s) :
    ∃ last < p.maxAttempts, (∀ j < last, (p.counted E.context (fate j)).again = true) ∧
      ((p.counted E.context (fate last)).again = true → last + 1 = p.maxAttempts) ∧
      a.Lawful E p input made fate s last := by
  obtain ⟨last, hlast, hagain, hfinal⟩ :=
    exists_last (fun j => p.counted E.context (fate j)) p.maxAttempts_pos
  exact ⟨last, hlast, hagain, hfinal, h.lawful hlast hagain hfinal⟩

/-! ## An agent that fails and then hangs -/

/-- A step that concludes after so many milliseconds. -/
def Step.after (millis : UInt64) (waitCancel : Bool) (conclusion : Conclusion) : Step where
  startFault := none
  watch := false
  detach := none
  delay := some (.ofMillis millis)
  waitCancel
  cancel := false
  conclusion

/-- The first call fails after three milliseconds, and all others wait to be cancelled. -/
def Agent.unsteady : Agent .text .text :=
  .scripted 0 "a" "a" .shared (.after 3 false (.fail "" none "early"))
    [.after 1 true (.succeed .identity)]

/-- An agent that takes two milliseconds. -/
def Agent.steady : Agent .text .text :=
  .scripted 1 "b" "b" .shared (.after 2 false (.succeed .identity)) []

/-- Two attempts of at most ten milliseconds with a pause of five, and a stand-in. -/
def PolicySet.careful : PolicySet .text .text :=
  ⟨some (.fixed 2 (.ofMillis 5)), some (.ofMillis 10), some .steady⟩

/-- Three milliseconds, the pause, ten milliseconds and two more. -/
theorem Agent.withPolicies_law_unsteady :
    let c : Context := ⟨0, ⟨0, []⟩, none⟩
    let s : Session := { Session.initial with registry := ⟨1, 1, []⟩ }
    ∃ s', Timeline.settle 0 30 (Timeline.alone
        ((Agent.unsteady.withPolicies .careful).execute (.ofText "x") c) (some c)) s =
      ([⟨some (.value (.ofText "x")), 20, false⟩], s') ∧
      s'.callsOf 0 = 2 ∧ s'.callsOf 1 = 1 := by
  intro c s
  let E := Surroundings.quiet c fun _ => True
  let input : Datum .text := .ofText "x"
  let step := stepOf (.after 3 false (.fail "" none "early")) [.after 1 true (.succeed .identity)]
  let fate (j : Nat) : Fate (Datum .text) :=
    (step j).fate "a" ((step j).conclusion.ending .text "a" none j input)
  have hchange : ∀ own (s s' : Session), E.change s s' → s.Calm own → s'.Calm own := by
    rintro own s _ ⟨time, -, rfl⟩ hown
    exact hown.of_registry rfl
  have hcalm : s.Calm c := by
    refine ⟨fun id hid => ?_, rfl, by simp [s]⟩
    obtain rfl := mem_singleton.mp hid
    exact Nat.one_pos
  have htried : Agent.unsteady.Tried E .careful input [0] fate s := by
    refine ⟨fun _ _ => rfl, hcalm, fun j hj own s' _ hnode hspent _ hown => ?_⟩
    have hcalls : s'.callsOf 0 = j := by
      rw [hspent.calls 0 trivial, show s.callsOf 0 = 0 from rfl]
      simp
    have htakes := takes_scripted (ω := .text) (hchange own) hown 0 "a" "a"
      (.after 3 false (.fail "" none "early")) [.after 1 true (.succeed .identity)] input
    rw [hcalls, hnode] at htakes
    apply htakes
    obtain rfl | rfl : j = 0 ∨ j = 1 := by
      have hmost : PolicySet.careful.maxAttempts = 2 := rfl
      omega
    · rfl
    · rfl
  obtain ⟨last, hlast, -, hfinal, hlawful⟩ := withPolicies_law htried
  obtain rfl : last = 1 := by
    have hmost : PolicySet.careful.maxAttempts = 2 := rfl
    obtain rfl | rfl : last = 0 ∨ last = 1 := by omega
    · exact absurd (hfinal rfl) (by decide)
    · rfl
  have hstandIn : ∀ s', E.Spent [0, 0] s s' → s'.now = 18 →
      (Agent.steady.execute input c).Takes E [1] s' (.ends 2 (.ok (.ofText "x"))) := by
    intro s' hspent _
    have hcalls : s'.callsOf 1 = 0 := hspent.calls 1 trivial
    have htakes := takes_scripted (ω := .text) (hchange c) (hspent.calm hcalm) 1 "b" "b"
      (.after 2 false (.succeed .identity)) [] input
    rw [hcalls] at htakes
    exact htakes rfl
  obtain ⟨-, hends⟩ := hlawful.standIn .steady rfl 10 _ rfl rfl [1] _ hstandIn
  have hpasses : ∀ (s : Session) (time : Nat), s.now < time → E.change s (s.advance time) :=
    fun s time hlt => ⟨time, Nat.le_of_lt hlt, rfl⟩
  obtain ⟨s', hsettle, hspent⟩ := (hends 2 _ rfl).alone hpasses 0 30 (by decide)
  exact ⟨s', hsettle, hspent.calls 0 trivial, hspent.calls 1 trivial⟩

end Orchestration
