import Orchestration.Proofs.Call.Going
import Orchestration.Proofs.Policy.Attempts

/-! # Rows of attempts

What a retrying agent has done so far is a row of attempts, whether it has ended or not. A row goes
on as long as the attempts fail recoverably under a context that is not cancelled, the waits after
them are over and the input can be copied once more. -/

namespace Orchestration

open List

variable {ι ω : Kind}

/-- A row of attempts under a context, with up to `left` further ones after the first and after
`failures` earlier ones. -/
inductive Agent.Tries (a : Agent ι ω) (backoff : Backoff) (input : Datum ι) (c : Context) :
    (left failures : Nat) → Session → List Gap → Option (Ending (Datum ω)) → Session →
      List (Episode ω) → Prop where
  /-- The input cannot be copied for the attempt, which is not made. -/
  | uncopied {left failures : Nat} {s : Session} {fault : Fault}
      (hcopy : input.copy failures = .error fault) :
      Tries a backoff input c left failures s [] (some (.fault fault)) s []
  /-- The attempt has not ended, or none follows on it. -/
  | last {left failures : Nat} {s s' : Session} {gaps : List Gap}
      {outcome : Option (Ending (Datum ω))} (hcopy : ∀ fault, input.copy failures ≠ .error fault)
      (h : a.Executes input ⟨c, s, gaps, outcome, s'⟩)
      (hstops : Episode.Fails ⟨c, s, gaps, outcome, s'⟩ → left = 0 ∨ s'.isCancelled c = true) :
      Tries a backoff input c left failures s gaps outcome s' [⟨c, s, gaps, outcome, s'⟩]
  /-- The wait after the attempt is not over. -/
  | waiting {left failures : Nat} {s s₁ s' : Session} {gaps pause : List Gap} {f : Failure}
      (hcopy : ∀ fault, input.copy failures ≠ .error fault)
      (h : a.Executes input ⟨c, s, gaps, some (.failure f), s₁⟩) (hf : f.recoverable = true)
      (hgoes : s₁.isCancelled c = false)
      (hdozes : s₁.Dozes (backoff.delay (failures + 1)).waitMillis pause s') :
      Tries a backoff input c (left + 1) failures s (gaps ++ pause) none s'
        [⟨c, s, gaps, some (.failure f), s₁⟩]
  /-- The next attempt follows after the wait. -/
  | again {left failures : Nat} {s s₁ s₂ s' : Session} {gaps pause rest : List Gap} {f : Failure}
      {outcome : Option (Ending (Datum ω))} {tries : List (Episode ω)}
      (hcopy : ∀ fault, input.copy failures ≠ .error fault)
      (h : a.Executes input ⟨c, s, gaps, some (.failure f), s₁⟩) (hf : f.recoverable = true)
      (hgoes : s₁.isCancelled c = false)
      (hsleeps : s₁.Sleeps (backoff.delay (failures + 1)).waitMillis pause s₂)
      (hrest : Tries a backoff input c left (failures + 1) s₂ rest outcome s' tries) :
      Tries a backoff input c (left + 1) failures s (gaps ++ (pause ++ rest)) outcome s'
        (⟨c, s, gaps, some (.failure f), s₁⟩ :: tries)

section Tries

variable {a : Agent ι ω} {backoff : Backoff} {input : Datum ι} {c : Context} {s s' : Session}
  {gaps : List Gap} {outcome : Option (Ending (Datum ω))} {left failures : Nat} {e : Episode ω}
  {tries : List (Episode ω)}

/-! ## All attempts are rows -/

theorem Ending.exists_failure_of_not_final {α : Type} {ending : Ending α} (h : ¬ ending.Final)
    (hfault : ∀ f, ending ≠ .fault f) :
    ∃ f : Failure, ending = .failure f ∧ f.recoverable = true := by
  cases ending with
  | value v => exact absurd trivial h
  | failure f => exact ⟨f, rfl, Bool.not_eq_false _ ▸ h⟩
  | fault f => exact absurd rfl (hfault f)

/-- After an attempt comes nothing, or a wait and the further attempts. -/
theorem Agent.goes_attempts_iff_or (hcopy : ∀ fault, input.copy failures ≠ .error fault) :
    (a.attempts backoff input c left failures).Goes s gaps outcome s' ↔
      (a.Executes input ⟨c, s, gaps, outcome, s'⟩ ∧
        (Episode.Fails ⟨c, s, gaps, outcome, s'⟩ → left = 0 ∨ s'.isCancelled c = true)) ∨
      ∃ f gaps₁ gaps₂ s₁, gaps = gaps₁ ++ gaps₂ ∧
        a.Executes input ⟨c, s, gaps₁, some (.failure f), s₁⟩ ∧ f.recoverable = true ∧
        s₁.isCancelled c = false ∧ ∃ left', left = left' + 1 ∧
          (Call.sleep (backoff.delay (failures + 1)).waitMillis
            (a.attempts backoff input c left' (failures + 1))).Goes s₁ gaps₂ outcome s' := by
  obtain ⟨next, hattempts, hnext⟩ := a.exists_next_attempts backoff c left hcopy
  rw [hattempts, Call.goes_andThen_iff]
  constructor
  · rintro (⟨rfl, hwaits⟩ | ⟨first, gaps₁, gaps₂, s₁, rfl, hfirst, hrest⟩)
    · exact .inl ⟨hwaits, by rintro ⟨f, ⟨⟩, -⟩⟩
    · have hfault := ne_fault_of_polled hfirst
      obtain ⟨hlast, hgoes⟩ := hnext ⟨s, gaps₁, first, s₁, []⟩ hfault
      by_cases hstops :
        Attempt.Stops ⟨s, gaps₁, first, s₁, []⟩ (failures + left + 1) (failures + 1) c
      · have hfinish : (next first).poll s₁ = (Call.finish first).poll s₁ := hlast hstops
        obtain ⟨rfl, rfl, rfl⟩ :=
          Call.goes_finish_iff.mp ((Call.goes_iff_of_poll_eq hfinish).mp hrest)
        rw [append_nil]
        refine .inl ⟨hfirst, ?_⟩
        rintro ⟨f, hf, hrecoverable⟩
        cases hf
        obtain hfinal | hmost | hcancelled := hstops
        · exact absurd hrecoverable (Bool.eq_false_iff.mp hfinal)
        · exact .inl (by omega)
        · exact .inr hcancelled
      · obtain ⟨f, rfl, hf⟩ :=
          Ending.exists_failure_of_not_final (fun hfinal => hstops (.inl hfinal)) hfault
        have hleft : left ≠ 0 := fun hzero => hstops (.inr (.inl (by omega)))
        have hcancelled : s₁.isCancelled c = false :=
          Bool.eq_false_iff.mpr fun hcancelled => hstops (.inr (.inr hcancelled))
        obtain ⟨left, rfl⟩ := Nat.exists_eq_succ_of_ne_zero hleft
        exact .inr ⟨f, gaps₁, gaps₂, s₁, rfl, hfirst, hf, hcancelled, left, rfl,
          (Call.goes_iff_of_poll_eq (hgoes hstops)).mp hrest⟩
  · rintro (⟨hfirst, hstops⟩ |
      ⟨f, gaps₁, gaps₂, s₁, rfl, hfirst, hf, hcancelled, left, rfl, hsleep⟩)
    · cases outcome with
      | none => exact .inl ⟨rfl, hfirst⟩
      | some ending =>
          have hfault := ne_fault_of_polled hfirst
          have hlast : Attempt.Stops ⟨s, gaps, ending, s', []⟩ (failures + left + 1) (failures + 1)
              c := by
            by_contra hgoes
            obtain ⟨f, rfl, hf⟩ :=
              Ending.exists_failure_of_not_final (fun hfinal => hgoes (.inl hfinal)) hfault
            obtain hleft | hcancelled := hstops ⟨f, rfl, hf⟩
            · exact hgoes (.inr (.inl (by omega)))
            · exact hgoes (.inr (.inr hcancelled))
          exact .inr ⟨ending, gaps, [], s', (append_nil _).symm, hfirst,
            .once ((hnext ⟨s, gaps, ending, s', []⟩ hfault).1 hlast)⟩
    · have hgoes : ¬ (⟨s, gaps₁, .failure f, s₁, []⟩ : Attempt ω).Stops (failures + (left + 1) + 1)
          (failures + 1) c := by
        rintro (hfinal | hmost | hstops)
        · exact absurd hf (Bool.eq_false_iff.mp hfinal)
        · omega
        · exact Bool.eq_false_iff.mp hcancelled hstops
      refine .inr ⟨.failure f, gaps₁, gaps₂, s₁, rfl, hfirst, ?_⟩
      exact (Call.goes_iff_of_poll_eq ((hnext _ (by simp)).2 hgoes)).mpr hsleep

/-- An attempt on an input that cannot be copied faults before the agent is executed. -/
theorem Agent.attempts_of_error (a : Agent ι ω) (backoff : Backoff) {fault : Fault}
    (h : input.copy failures = .error fault) (c : Context) (left : Nat) :
    a.attempts backoff input c left failures = .finish (.fault fault) := by
  rw [attempts, withCopy_of_error h]

/-- The attempts are a row of them. -/
theorem Agent.goes_attempts_iff :
    (a.attempts backoff input c left failures).Goes s gaps outcome s' ↔
      ∃ tries, a.Tries backoff input c left failures s gaps outcome s' tries := by
  constructor
  · intro h
    induction left generalizing failures s gaps with
    | zero =>
        cases hcopy : input.copy failures with
        | error fault =>
            rw [a.attempts_of_error backoff hcopy] at h
            obtain ⟨rfl, rfl, rfl⟩ := Call.goes_finish_iff.mp h
            exact ⟨_, .uncopied hcopy⟩
        | ok copy =>
            have hcopies : ∀ fault, input.copy failures ≠ .error fault := by simp [hcopy]
            obtain ⟨hfirst, hstops⟩ | ⟨_, _, _, _, _, _, _, _, left, hleft, _⟩ :=
              (goes_attempts_iff_or hcopies).mp h
            · exact ⟨_, .last hcopies hfirst hstops⟩
            · cases hleft
    | succ left ih =>
        cases hcopy : input.copy failures with
        | error fault =>
            rw [a.attempts_of_error backoff hcopy] at h
            obtain ⟨rfl, rfl, rfl⟩ := Call.goes_finish_iff.mp h
            exact ⟨_, .uncopied hcopy⟩
        | ok copy =>
            have hcopies : ∀ fault, input.copy failures ≠ .error fault := by simp [hcopy]
            obtain ⟨hfirst, hstops⟩ |
                ⟨f, gaps₁, gaps₂, s₁, rfl, hfirst, hf, hgoes, left, ⟨⟩, hsleep⟩ :=
              (goes_attempts_iff_or hcopies).mp h
            · exact ⟨_, .last hcopies hfirst hstops⟩
            · obtain ⟨rfl, hdozes⟩ | ⟨pause, rest, s₂, rfl, hsleeps, hrest⟩ :=
                Call.goes_sleep_iff.mp hsleep
              · exact ⟨_, .waiting hcopies hfirst hf hgoes hdozes⟩
              · obtain ⟨tries, htries⟩ := ih hrest
                exact ⟨_, .again hcopies hfirst hf hgoes hsleeps htries⟩
  · rintro ⟨tries, h⟩
    induction h with
    | uncopied hcopy =>
        rw [a.attempts_of_error backoff hcopy]
        exact Call.goes_finish_iff.mpr ⟨rfl, rfl, rfl⟩
    | last hcopy h hstops => exact (goes_attempts_iff_or hcopy).mpr (.inl ⟨h, hstops⟩)
    | waiting hcopy h hf hgoes hdozes =>
        exact (goes_attempts_iff_or hcopy).mpr (.inr ⟨_, _, _, _, rfl, h, hf, hgoes, _, rfl,
          Call.goes_sleep_iff.mpr (.inl ⟨rfl, hdozes⟩)⟩)
    | again hcopy h hf hgoes hsleeps _ ih =>
        exact (goes_attempts_iff_or hcopy).mpr (.inr ⟨_, _, _, _, rfl, h, hf, hgoes, _, rfl,
          Call.goes_sleep_iff.mpr (.inr ⟨_, _, _, rfl, hsleeps, ih⟩)⟩)

/-- An execution of a retrying agent is a row of attempts, with a failure in the place of a fault. -/
theorem Agent.executes_retrying_iff (p : RetryPolicy) : (a.retrying p).Executes input e ↔
    ∃ outcome tries, e.outcome = Option.map (·.captured a.name) outcome ∧
      a.Tries p.backoff input e.context p.furtherAttempts 0 e.start e.gaps outcome e.finish
        tries := by
  refine goes_execute_iff.trans (exists_congr fun outcome => ?_)
  rw [exists_and_left]
  exact and_congr_right fun _ => goes_attempts_iff

/-! ## What is in a row -/

namespace Agent.Tries

theorem executes (h : a.Tries backoff input c left failures s gaps outcome s' tries) :
    ∀ t ∈ tries, a.Executes input t := by
  induction h with
  | uncopied => nofun
  | last _ h | waiting _ h => simpa using h
  | again _ h _ _ _ _ ih => exact forall_mem_cons.mpr ⟨h, ih⟩

theorem context_eq (h : a.Tries backoff input c left failures s gaps outcome s' tries) :
    ∀ t ∈ tries, t.context = c := by
  induction h with
  | uncopied => nofun
  | last | waiting => simp
  | again _ _ _ _ _ _ ih => exact forall_mem_cons.mpr ⟨rfl, ih⟩

theorem length_le (h : a.Tries backoff input c left failures s gaps outcome s' tries) :
    tries.length ≤ left + 1 := by
  induction h with
  | uncopied => exact Nat.zero_le _
  | last | waiting => simp
  | again _ _ _ _ _ _ ih => simpa using ih

/-- Every attempt has ended if the whole row has. -/
theorem ended (h : a.Tries backoff input c left failures s gaps outcome s' tries)
    (houtcome : outcome ≠ none) : ∀ t ∈ tries, t.outcome ≠ none := by
  induction h with
  | uncopied => nofun
  | last => simpa using houtcome
  | waiting => exact absurd rfl houtcome
  | again _ _ _ _ _ _ ih => exact forall_mem_cons.mpr ⟨nofun, ih houtcome⟩

/-- A row ends with a fault if the input cannot be copied for a further attempt, after some that
have failed recoverably while the context was not cancelled, and in no other way. -/
theorem spoilt {fault : Fault}
    (h : a.Tries backoff input c left failures s gaps (some (.fault fault)) s' tries) :
    input.copy (failures + tries.length) = .error fault ∧ tries.length ≤ left ∧
      ∀ t ∈ tries, t.Fails ∧ t.finish.isCancelled c = false := by
  generalize houtcome : some (Ending.fault fault) = outcome at h
  induction h with
  | uncopied hcopy =>
      cases houtcome
      exact ⟨hcopy, Nat.zero_le _, nofun⟩
  | last _ h =>
      subst houtcome
      exact absurd rfl (h.ne_fault fault)
  | waiting => cases houtcome
  | again _ h hf hgoes _ _ ih =>
      obtain ⟨hcopy, hlength, hfails⟩ := ih houtcome
      refine ⟨?_, by simpa using hlength, forall_mem_cons.mpr ⟨⟨⟨_, rfl, hf⟩, hgoes⟩, hfails⟩⟩
      rw [length_cons, ← hcopy]
      congr 1
      omega

/-- As many attempts as are allowed are made if each fails recoverably in a context that is not
cancelled and the input can be copied for each. -/
theorem length_eq (h : a.Tries backoff input c left failures s gaps outcome s' tries)
    (houtcome : outcome ≠ none) (hfault : ∀ fault, outcome ≠ some (.fault fault))
    (hfails : ∀ t ∈ tries, t.Fails)
    (hcancelled : ∀ t ∈ tries, t.finish.isCancelled t.context = false) :
    Episode.Fails ⟨c, s, gaps, outcome, s'⟩ ∧ tries.length = left + 1 := by
  induction h with
  | uncopied => exact absurd rfl (hfault _)
  | last _ h hstops =>
      have hfails := hfails _ (mem_singleton_self _)
      have hgoes := hcancelled _ (mem_singleton_self _)
      obtain hleft | hstopped := hstops hfails
      · exact ⟨hfails, by simp [hleft]⟩
      · exact absurd hstopped (Bool.eq_false_iff.mp hgoes)
  | waiting => exact absurd rfl houtcome
  | again _ _ _ _ _ _ ih =>
      obtain ⟨-, hfails⟩ := forall_mem_cons.mp hfails
      obtain ⟨-, hcancelled⟩ := forall_mem_cons.mp hcancelled
      obtain ⟨hfails, hlength⟩ := ih houtcome hfault hfails hcancelled
      exact ⟨hfails, by rw [length_cons, hlength]⟩

theorem madeIn_eq (h : a.Tries backoff input c left failures s gaps outcome s' tries)
    (agent : Nat) : Call.madeIn s gaps s' agent = (tries.map (·.madeIn agent)).sum := by
  induction h with
  | uncopied => exact Call.madeIn_nil_of_calls_eq rfl agent
  | last => simp [Episode.madeIn]
  | @waiting _ _ s s₁ s' gaps pause _ _ _ _ _ hdozes =>
      rw [Call.madeIn_append _ s₁, Call.madeIn_of_dozes hdozes]
      simp [Episode.madeIn]
  | @again _ _ s s₁ s₂ s' gaps pause rest _ _ _ _ _ _ _ hsleeps _ ih =>
      rw [Call.madeIn_append _ s₁, Call.madeIn_append _ s₂, Call.madeIn_of_sleeps hsleeps, ih]
      simp [Episode.madeIn]

/-! ## Cancellation -/

theorem start_eq (h : a.Tries backoff input c left failures s gaps outcome s' tries) :
    ∀ t ∈ tries.head?, t.start = s := by
  cases h <;> simp

/-- Under a context that is cancelled, at most one attempt is made. -/
theorem length_le_one (h : a.Tries backoff input c left failures s gaps outcome s' tries)
    (hlater : ∀ gap ∈ gaps, gap.before.Later gap.after) (hc : s.isCancelled c = true) :
    tries.length ≤ 1 := by
  cases h with
  | uncopied => exact Nat.zero_le 1
  | last | waiting => exact Nat.le_refl 1
  | again _ h _ hgoes =>
      have hpolled : Call.Polled _ _ _ _ _ := h
      have hfinish := (hpolled.later fun gap hgap =>
        hlater gap (mem_append_left _ hgap)).isCancelled hc
      exact absurd hfinish (Bool.eq_false_iff.mp hgoes)

/-- So an attempt that starts under a cancelled context after another one is the last, and the
context was not cancelled when that one ended. -/
theorem cancelled (h : a.Tries backoff input c left failures s gaps outcome s' tries)
    (hlater : ∀ gap ∈ gaps, gap.before.Later gap.after) (i : Nat) (t t' : Episode ω)
    (ht : tries[i]? = some t) (ht' : tries[i + 1]? = some t')
    (hc : t'.start.isCancelled c = true) :
    t.finish.isCancelled c = false ∧ i + 2 = tries.length := by
  induction h generalizing i with
  | uncopied => cases ht
  | last | waiting => simp at ht'
  | @again _ _ s s₁ s₂ s' gaps pause rest f outcome tries _ h _ hgoes _ hrest ih =>
      have hlast : ∀ gap ∈ rest, gap.before.Later gap.after :=
        fun gap hgap => hlater gap (mem_append_right _ (mem_append_right _ hgap))
      cases i with
      | zero =>
          cases ht
          rw [zero_add, getElem?_cons_succ] at ht'
          have hstart := hrest.start_eq t' (Option.mem_def.mpr (head?_eq_getElem?.trans ht'))
          have hone := hrest.length_le_one hlast (hstart ▸ hc)
          obtain ⟨hlt, -⟩ := List.getElem?_eq_some_iff.mp ht'
          exact ⟨hgoes, by rw [length_cons]; omega⟩
      | succ i =>
          rw [getElem?_cons_succ] at ht ht'
          obtain ⟨hgoes, hlength⟩ := ih hlast i ht ht'
          exact ⟨hgoes, by rw [length_cons]; omega⟩

end Agent.Tries

end Tries

namespace Agent

variable {a : Agent ι ω} {input : Datum ι} {c : Context} {s s' : Session} {gaps : List Gap}

/-- A context that is cancelled stays so from one attempt to the next. -/
theorem Course.isCancelled_finish {backoff : Backoff} {most first : Nat}
    {ending : Ending (Datum ω)} {tries : List (Attempt ω)} {t : Attempt ω}
    (h : a.Course backoff most input c first s gaps ending s' tries)
    (hlater : ∀ gap ∈ gaps, gap.before.Later gap.after) (ht : t ∈ tries)
    (hc : t.start.isCancelled c = true) : t.finish.isCancelled c = true := by
  have hgaps : ∀ gap ∈ t.gaps, gap.before.Later gap.after := by
    intro gap hgap
    refine hlater gap ?_
    rw [h.gaps_eq]
    exact mem_flatMap.mpr ⟨t, ht, mem_append_left _ hgap⟩
  exact ((h.executed t ht).later hgaps).isCancelled hc

/-- The context is looked at when an attempt fails and not again before the next one. So a further
attempt that starts in a cancelled context is one for which the context was cancelled during the
wait before it, and it is the last. So it is in the row of the attempts that are made while the call
goes on, and in the course of them when it has ended. -/
theorem retrying_cancelled (a : Agent ι ω) (p : RetryPolicy) {outcome : Option (Ending (Datum ω))}
    (h : (a.retrying p).Executes input ⟨c, s, gaps, outcome, s'⟩)
    (hlater : ∀ gap ∈ gaps, gap.before.Later gap.after) :
    (∃ row tries, outcome = Option.map (·.captured a.name) row ∧
      a.Tries p.backoff input c p.furtherAttempts 0 s gaps row s' tries ∧
      ∀ i t t', tries[i]? = some t → tries[i + 1]? = some t' → t'.start.isCancelled c = true →
        t.finish.isCancelled c = false ∧ i + 2 = tries.length) ∧
    ∀ copy ending, (∀ earlier < max 1 p.maxAttempts.toNat, input.copy earlier = .ok copy) →
      outcome = some ending →
      ∃ tries, a.Course p.backoff (max 1 p.maxAttempts.toNat) copy c 1 s gaps ending s' tries ∧
        ∀ i t t', tries[i]? = some t → tries[i + 1]? = some t' → t'.start.isCancelled c = true →
          t.finish.isCancelled c = false ∧ i + 2 = tries.length := by
  constructor
  · obtain ⟨row, tries, houtcome, htries⟩ := (executes_retrying_iff p).mp h
    exact ⟨row, tries, houtcome, htries, htries.cancelled hlater⟩
  · rintro copy ending hcopy rfl
    obtain rfl : copy = input := Datum.eq_of_copy (hcopy 0 (by omega))
    have hcopies : ∀ earlier < max 1 p.maxAttempts.toNat, ∀ f, copy.copy earlier ≠ .error f :=
      fun earlier hlt => by simp [hcopy earlier hlt]
    obtain ⟨tries, hcourse⟩ := (polled_retrying_iff p hcopies).mp h
    refine ⟨tries, hcourse, fun i t t' ht ht' hc => ⟨?_, ?_⟩⟩
    · obtain ⟨hi, -⟩ := List.getElem?_eq_some_iff.mp ht'
      have hgoes := mt (hcourse.least i t ht).mp (by omega)
      exact Bool.eq_false_iff.mpr fun hcancelled => hgoes (.inr (.inr hcancelled))
    · have hfinish := hcourse.isCancelled_finish hlater (mem_of_getElem? ht') hc
      exact (hcourse.least (i + 1) t' ht').mp (.inr (.inr hfinish))

/-- The context is cancelled during the wait, and the second attempt is made all the same. -/
theorem retrying_cancelled_flaky :
    (flaky.retrying fiveTimes).Executes (.ofText "x") ⟨flakyContext, .initial, flakyGaps [0],
      some (.failure (.ofAgent "flaky" "no")), flakySession 12 2 2 [0] flakyEnd⟩ ∧
    (∀ gap ∈ flakyGaps [0], gap.before.Later gap.after) ∧
    (flakySecond [0]).start.isCancelled flakyContext = true ∧
    (∃ row tries, some (.failure (.ofAgent "flaky" "no")) = Option.map (·.captured "flaky") row ∧
      flaky.Tries fiveTimes.backoff (.ofText "x") flakyContext fiveTimes.furtherAttempts 0 .initial
        (flakyGaps [0]) row (flakySession 12 2 2 [0] flakyEnd) tries ∧
      ∀ i t t', tries[i]? = some t → tries[i + 1]? = some t' →
        t'.start.isCancelled flakyContext = true →
          t.finish.isCancelled flakyContext = false ∧ i + 2 = tries.length) ∧
    ∃ tries, flaky.Course fiveTimes.backoff 5 (.ofText "x") flakyContext 1 .initial (flakyGaps [0])
      (.failure (.ofAgent "flaky" "no")) (flakySession 12 2 2 [0] flakyEnd) tries ∧
      ∀ i t t', tries[i]? = some t → tries[i + 1]? = some t' →
        t'.start.isCancelled flakyContext = true →
          t.finish.isCancelled flakyContext = false ∧ i + 2 = tries.length := by
  have hcopy : ∀ earlier < max 1 fiveTimes.maxAttempts.toNat,
      (Datum.ofText "x").copy earlier = .ok (.ofText "x") := fun _ _ => rfl
  have hexecutes : (flaky.retrying fiveTimes).Executes (.ofText "x") ⟨flakyContext, .initial,
      flakyGaps [0], some (.failure (.ofAgent "flaky" "no")), flakySession 12 2 2 [0] flakyEnd⟩ :=
    (polled_retrying_iff fiveTimes fun earlier h => by simp [hcopy earlier h]).mpr
      ⟨_, course_flaky [0]⟩
  have hlater : ∀ gap ∈ flakyGaps [0], gap.before.Later gap.after := by
    intro gap hgap
    simp only [flakyGaps, flakyFirst, flakySecond, mem_append, mem_singleton] at hgap
    obtain rfl | rfl := hgap
    · exact ⟨Nat.zero_le 10, Nat.le_refl _, nil_subset _⟩
    · exact ⟨Nat.le_add_right 10 2, Nat.le_refl _, Subset.refl _⟩
  obtain ⟨hrow, hcourse⟩ := flaky.retrying_cancelled fiveTimes hexecutes hlater
  exact ⟨hexecutes, hlater, rfl, hrow, hcourse _ _ hcopy rfl⟩

/-- So an agent is tried again under a context that was cancelled five milliseconds before. -/
theorem tried_again_after_cancellation :
    Timeline.together 100 [((flaky.retrying (.fixed 2 (.ofMillis 10))).execute (.ofText "x"),
        some ⟨none, false, some 5⟩)] .initial =
      ([⟨some (.failure (.ofAgent "flaky" "no")), 12, true⟩],
        ⟨12, 2, ⟨1, 1, [0]⟩, [(0, 2)], flakyEnd ++ [⟨0, "flaky", 0, .failed⟩,
          ⟨0, "flaky", 0, .started (.text "x")⟩], [], []⟩) := by
  cbv

end Agent

end Orchestration
