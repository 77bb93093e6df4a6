import Orchestration.Proofs.Call.Polling
import Orchestration.Proofs.Policy.Fates
import Orchestration.Proofs.Timeline.Alone

/-! # Time limits on any work

An execution under a time limit either ends in time, and then it ends as the work does, or the work
is found waiting when the time is over, and then it is dropped and nothing more comes of it. Of
several limits around the same work the shortest one decides, and of those that are equally short
the innermost. -/

namespace Orchestration

open List

variable {ι ω : Kind}

/-- The agent under several time limits, the outermost first. -/
def Agent.limited (a : Agent ι ω) (limits : List Duration) : Agent ι ω :=
  limits.foldr (fun limit inner => inner.timingOut limit) a

/-- The context under which an agent works within time limits, and the session in which it starts. -/
def Session.entered (s : Session) (c : Context) : List Duration → Context × Session
  | [] => (c, s)
  | limit :: limits => (s.timed c limit).entered (s.derive c).1 limits

namespace Session

theorem entered_now (s : Session) (c : Context) (limits : List Duration) :
    (s.entered c limits).2.now = s.now := by
  induction limits generalizing s c with
  | nil => rfl
  | cons limit limits ih => exact ih _ _

theorem entered_node (s : Session) (c : Context) (limits : List Duration) :
    (s.entered c limits).1.node = c.node := by
  induction limits generalizing s c with
  | nil => rfl
  | cons limit limits ih => exact ih _ _

theorem entered_append (s : Session) (c : Context) (outer inner : List Duration) :
    s.entered c (outer ++ inner) =
      (s.entered c outer).2.entered (s.entered c outer).1 inner := by
  induction outer generalizing s c with
  | nil => rfl
  | cons limit outer ih => exact ih _ _

end Session

/-- No poll is later than a time, and up to then the call is left waiting before the last one only. -/
def Gap.Before (time : Nat) (gap : Gap) : Prop :=
  gap.before.now < time ∧ gap.after.now ≤ time

theorem Gap.Before.mono {time time' : Nat} {gap : Gap} (h : gap.Before time) (hle : time ≤ time') :
    gap.Before time' :=
  ⟨Nat.lt_of_lt_of_le h.1 hle, Nat.le_trans h.2 hle⟩

namespace Call

variable {α : Type} {body : Call α} {state : Progress (Call α) (Ending α)} {ending : Ending α}
  {s s' : Session} {gaps : List Gap}

/-- The work races against a deadline. It ends by then, or it is found waiting just then, and it is
dropped, a context is cancelled, and it has ended in the way that is fixed for this. -/
inductive Raced (work : Call α) (start : Session) (due : Nat) (scope : Context) (late : Ending α)
    (gaps : List Gap) : Ending α → Session → Prop where
  | ends {ending : Ending α} {s' : Session} (hgaps : ∀ gap ∈ gaps, gap.Before due)
      (hends : work.Polled start gaps (.ended ending) s') :
      Raced work start due scope late gaps ending s'
  | expires {rest : Call α} {s₁ s' : Session} (hgaps : ∀ gap ∈ gaps, gap.Before due)
      (hwaits : work.Polled start gaps (.waiting rest) s₁) (hnow : s₁.now = due)
      (hdropped : s' = (rest.drop s₁).cancel scope) :
      Raced work start due scope late gaps late s'

/-- Polled in time, the call is left in time. -/
theorem Polled.now_le_of_before {time : Nat} (h : body.Polled s gaps state s') (hs : s.now ≤ time)
    (hgaps : ∀ gap ∈ gaps, gap.Before time) : s'.now ≤ time :=
  h.now_le hs fun gap hgap => (hgaps gap hgap).2

theorem Raced.now_le {due : Nat} {scope : Context} {late : Ending α} (hs : s.now ≤ due)
    (h : body.Raced s due scope late gaps ending s') : s'.now ≤ due := by
  cases h with
  | ends hgaps hends => exact hends.now_le_of_before hs hgaps
  | expires _ _ hnow hdropped =>
      rw [hdropped, Session.cancel_now, drop_now]
      exact Nat.le_of_eq hnow

theorem polled_within_iff {deadline : Timer} {scope : Context} {late : Ending α}
    (hs : s.now ≤ deadline.due) :
    (within deadline scope late body).Polled s gaps (.ended ending) s' ↔
      body.Raced s deadline.due scope late gaps ending s' := by
  rw [polled_within_iff_or]
  constructor
  · rintro ⟨hgaps, ⟨_, ⟨rfl⟩, hends⟩ | ⟨rest, s₁, hwaits, hlate⟩⟩
    · exact .ends hgaps hends
    · have hle := hwaits.now_le_of_before hs hgaps
      split at hlate
      · rename_i hdue
        cases hlate
        exact .expires hgaps hwaits (Nat.le_antisymm hle hdue) rfl
      · cases hlate
  · intro h
    cases h with
    | ends hgaps hends => exact ⟨hgaps, .inl ⟨ending, rfl, hends⟩⟩
    | @expires rest s₁ s' hgaps hwaits hnow hdropped =>
        subst hdropped
        exact ⟨hgaps, .inr ⟨rest, s₁, hwaits, (if_pos (Nat.le_of_eq hnow.symm)).symm⟩⟩

theorem waiting_within_iff {deadline : Timer} {scope : Context} {late : Ending α}
    {left : Call α} : (within deadline scope late body).Polled s gaps (.waiting left) s' ↔
      (∀ gap ∈ gaps, gap.Before deadline.due) ∧ s'.now < deadline.due ∧
        ∃ rest, left = within deadline scope late rest ∧
          body.Polled s gaps (.waiting rest) s' := by
  rw [polled_within_iff_or]
  constructor
  · rintro ⟨hgaps, ⟨_, ⟨⟩, -⟩ | ⟨rest, s₁, hwaits, hlate⟩⟩
    split at hlate
    · cases hlate
    · rename_i hearly
      cases hlate
      exact ⟨hgaps, Nat.lt_of_not_le hearly, rest, rfl, hwaits⟩
  · rintro ⟨hgaps, hearly, rest, rfl, hwaits⟩
    exact ⟨hgaps, .inr ⟨rest, s', hwaits, (if_neg (Nat.not_le_of_lt hearly)).symm⟩⟩

end Call

namespace Agent

variable {a : Agent ι ω} {input : Datum ι} {c : Context} {s s' : Session} {gaps : List Gap}
  {ending : Ending (Datum ω)} {left : Call (Datum ω)} {limit : Duration} {limits : List Duration}
  {time : Nat}

/-! ## One limit -/

/-- The fault boundary waits as long as the work does. -/
theorem waiting_execute_iff :
    (a.execute input c).Polled s gaps (.waiting left) s' ↔
      ∃ rest, left = rest.andThen (captureFault a.name) ∧
        (a.start input c).Polled s gaps (.waiting rest) s' := by
  refine Call.polled_andThen_iff_or.trans ⟨?_, ?_⟩
  · rintro (⟨rest, hleft, hwaits⟩ | ⟨first, gaps₁, gaps₂, s₁, rfl, -, hcaptured⟩)
    · cases hleft
      exact ⟨rest, rfl, hwaits⟩
    · obtain ⟨result, hresult⟩ : ∃ result, captureFault a.name first = .finish result := by
        cases first <;> exact ⟨_, rfl⟩
      rw [hresult] at hcaptured
      obtain ⟨-, hwaiting, -⟩ := Call.polled_finish_iff.mp hcaptured
      cases hwaiting
  · rintro ⟨rest, rfl, hwaits⟩
    exact .inl ⟨rest, rfl, hwaits⟩

/-- An execution under a time limit ends as the work does in a race against the limit. -/
theorem polled_timingOut_iff :
    ((a.timingOut limit).execute input c).Polled s gaps (.ended ending) s' ↔
      (a.execute input (s.derive c).1).Raced (s.timed c limit) (s.now + limit.waitMillis)
        (s.derive c).1 (.failure (.timeout (c.node.getD "") limit)) gaps ending s' := by
  have hstart : ∀ ending, ((a.timingOut limit).start input c).Polled s gaps (.ended ending) s' ↔ _ :=
    fun ending => (Call.polled_iff_of_poll_eq (a.poll_timingOut limit input c s)).trans
      (Call.polled_within_iff (Nat.le_add_right _ _))
  refine (polled_execute_iff fun ending hending f hfault => ?_).trans (hstart ending)
  cases (hstart ending).mp hending with
  | ends _ hends => exact ne_fault_of_polled hends f hfault
  | expires => cases hfault

/-- It waits as long as the work does and the time is not over. -/
theorem waiting_timingOut_iff :
    ((a.timingOut limit).execute input c).Polled s gaps (.waiting left) s' ↔
      (∀ gap ∈ gaps, gap.Before (s.now + limit.waitMillis)) ∧ s'.now < s.now + limit.waitMillis ∧
        ∃ rest, left = (Call.within ⟨s.now + limit.waitMillis, s.timers⟩ (s.derive c).1
            (.failure (.timeout (c.node.getD "") limit)) rest).andThen (captureFault a.name) ∧
          (a.execute input (s.derive c).1).Polled (s.timed c limit) gaps (.waiting rest) s' := by
  rw [waiting_execute_iff]
  have hstart : ∀ left, ((a.timingOut limit).start input c).Polled s gaps (.waiting left) s' ↔ _ :=
    fun left => (Call.polled_iff_of_poll_eq (a.poll_timingOut limit input c s)).trans
      Call.waiting_within_iff
  constructor
  · rintro ⟨_, rfl, h⟩
    obtain ⟨hgaps, hearly, rest, rfl, hwaits⟩ := (hstart _).mp h
    exact ⟨hgaps, hearly, rest, rfl, hwaits⟩
  · rintro ⟨hgaps, hearly, rest, rfl, hwaits⟩
    exact ⟨_, rfl, (hstart _).mpr ⟨hgaps, hearly, rest, rfl, hwaits⟩⟩

/-! ## Several limits -/

/-- In a race, a limit of the work itself that is over only later changes nothing. -/
theorem raced_timingOut_iff {due : Nat} {scope : Context} {late : Ending (Datum ω)}
    (hs : s.now ≤ due) (hlimit : due < s.now + limit.waitMillis) :
    ((a.timingOut limit).execute input c).Raced s due scope late gaps ending s' ↔
      (a.execute input (s.derive c).1).Raced (s.timed c limit) due scope late gaps ending s' := by
  have hmono : (∀ gap ∈ gaps, gap.Before due) → ∀ gap ∈ gaps,
      gap.Before (s.now + limit.waitMillis) :=
    fun hgaps gap hgap => (hgaps gap hgap).mono (Nat.le_of_lt hlimit)
  constructor
  · intro h
    cases h with
    | ends hgaps hends =>
        cases polled_timingOut_iff.mp hends with
        | ends _ hends => exact .ends hgaps hends
        | expires _ hwaits hnow _ =>
            have hle : _ ≤ due := hwaits.now_le_of_before hs hgaps
            omega
    | expires hgaps hlimited hnow hdropped =>
        obtain ⟨-, -, rest, rfl, hwaits⟩ := waiting_timingOut_iff.mp hlimited
        exact .expires hgaps hwaits hnow hdropped
  · intro h
    cases h with
    | ends hgaps hends => exact .ends hgaps (polled_timingOut_iff.mpr (.ends (hmono hgaps) hends))
    | @expires rest s₁ s' hgaps hwaits hnow hdropped =>
        have hlimited := waiting_timingOut_iff.mpr ⟨hmono hgaps, hnow ▸ hlimit, rest, rfl, hwaits⟩
        exact .expires hgaps hlimited hnow hdropped

/-- Longer limits inside the race change nothing. -/
theorem raced_limited_iff {due : Nat} {scope : Context} {late : Ending (Datum ω)}
    (hs : s.now ≤ due) (hlimits : ∀ limit ∈ limits, due < s.now + limit.waitMillis) :
    ((a.limited limits).execute input c).Raced s due scope late gaps ending s' ↔
      (a.execute input (s.entered c limits).1).Raced (s.entered c limits).2 due scope late gaps
        ending s' := by
  induction limits generalizing s c with
  | nil => rfl
  | cons limit limits ih =>
      obtain ⟨hlimit, hlimits⟩ := forall_mem_cons.mp hlimits
      exact (raced_timingOut_iff hs hlimit).trans (ih hs hlimits)

/-- Under further limits the work waits no longer than its own limit allows. -/
theorem now_lt_of_waiting_limited
    (h : (((a.timingOut limit).limited limits).execute input c).Polled s gaps (.waiting left) s') :
    s'.now < s.now + limit.waitMillis := by
  induction limits generalizing s c left with
  | nil => exact (waiting_timingOut_iff.mp h).2.1
  | cons outermost limits ih =>
      obtain ⟨-, -, rest, -, hwaits⟩ := waiting_timingOut_iff.mp h
      have hlt := ih hwaits
      exact hlt

/-- Limits outside that are not shorter change nothing. -/
theorem polled_limited_iff (hlimits : ∀ o ∈ limits, limit.waitMillis ≤ o.waitMillis) :
    (((a.timingOut limit).limited limits).execute input c).Polled s gaps (.ended ending) s' ↔
      ((a.timingOut limit).execute input (s.entered c limits).1).Polled (s.entered c limits).2 gaps
        (.ended ending) s' := by
  induction limits generalizing s c with
  | nil => rfl
  | cons outermost limits ih =>
      obtain ⟨houtermost, hlimits⟩ := forall_mem_cons.mp hlimits
      refine polled_timingOut_iff.trans (Iff.trans ⟨fun h => ?_, fun h => ?_⟩ (ih hlimits))
      · cases h with
        | ends _ hends => exact hends
        | expires _ hwaits hnow _ =>
            have hlt := now_lt_of_waiting_limited hwaits
            rw [Session.timed_now] at hlt
            omega
      · refine .ends (fun gap hgap => ?_) h
        have hraced := polled_timingOut_iff.mp ((ih hlimits).mp h)
        have hbefore : gap.Before ((s.timed c outermost).now + limit.waitMillis) := by
          rw [Session.entered_now] at hraced
          cases hraced with
          | ends hgaps => exact hgaps gap hgap
          | expires hgaps => exact hgaps gap hgap
        exact hbefore.mono (Nat.add_le_add_left houtermost _)

/-- Of the limits there is a shortest one, the innermost of those that are equally short. -/
theorem exists_deciding (h : limits ≠ []) : ∃ outer limit inner,
    limits = outer ++ limit :: inner ∧ (∀ o ∈ outer, limit.waitMillis ≤ o.waitMillis) ∧
      ∀ i ∈ inner, limit.waitMillis < i.waitMillis := by
  induction limits with
  | nil => exact absurd rfl h
  | cons limit limits ih =>
      by_cases hlimits : limits = []
      · exact ⟨[], limit, [], by rw [hlimits]; rfl, by simp, by simp⟩
      · obtain ⟨outer, shortest, inner, rfl, houter, hinner⟩ := ih hlimits
        by_cases hlt : limit.waitMillis < shortest.waitMillis
        · refine ⟨[], limit, _, rfl, by simp, fun i hi => ?_⟩
          rcases mem_append.mp hi with hi | hi
          · exact Nat.lt_of_lt_of_le hlt (houter i hi)
          · rcases mem_cons.mp hi with rfl | hi
            · exact hlt
            · exact Nat.lt_trans hlt (hinner i hi)
        · exact ⟨limit :: outer, shortest, inner, rfl,
            forall_mem_cons.mpr ⟨Nat.le_of_not_lt hlt, houter⟩, hinner⟩

/-- The limit decides that is not longer than those outside it and shorter than those inside. -/
theorem polled_limited_iff_raced {outer inner : List Duration}
    (houter : ∀ o ∈ outer, limit.waitMillis ≤ o.waitMillis)
    (hinner : ∀ i ∈ inner, limit.waitMillis < i.waitMillis) :
    ((a.limited (outer ++ limit :: inner)).execute input c).Polled s gaps (.ended ending) s' ↔
      (a.execute input (s.entered c (outer ++ limit :: inner)).1).Raced
        (s.entered c (outer ++ limit :: inner)).2 (s.now + limit.waitMillis)
        (s.entered c (outer ++ [limit])).1 (.failure (.timeout (c.node.getD "") limit)) gaps
        ending s' := by
  have hlimited : a.limited (outer ++ limit :: inner) =
      ((a.limited inner).timingOut limit).limited outer := foldr_append
  rw [hlimited, polled_limited_iff houter, polled_timingOut_iff, raced_limited_iff,
    Session.entered_append, Session.entered_append, Session.entered_now, Session.entered_node]
  · rfl
  · exact Nat.le_add_right _ _
  · intro i hi
    rw [Session.timed_now]
    exact Nat.add_lt_add_left (hinner i hi) _

/-! ## Time -/

/-- Up to a time, any call either ends or waits. -/
theorem until_bounded {α : Type} (W : Session → Session → Prop) (call : Call α) {s : Session}
    (hs : s.now ≤ time) : call.Until W (some time) (fun _ => True) (fun _ _ => True) s := by
  induction hleft : time - s.now using Nat.strongRecOn generalizing call s with
  | _ left ih =>
      cases hpoll : call.poll s with
      | mk state s' =>
          have hstill := Call.now_of_poll hpoll
          cases state with
          | ended ending => exact .ended hpoll trivial
          | waiting rest =>
              refine .waits hpoll trivial fun s'' _ hlater hbound _ => ?_
              have hle : s''.now ≤ time := hbound time rfl
              exact ih (time - s''.now) (by omega) rest hle rfl

/-- Whatever happens meanwhile, an execution under a time limit ends by the end of the time. -/
theorem until_timingOut (a : Agent ι ω) (input : Datum ι) (c : Context) (s : Session)
    (limit : Duration) (W : Session → Session → Prop) :
    ((a.timingOut limit).execute input c).Until W none
      (fun s' => s'.now < s.now + limit.waitMillis) (fun ending s' => ∃ gaps,
        (a.execute input (s.derive c).1).Raced (s.timed c limit) (s.now + limit.waitMillis)
          (s.derive c).1 (.failure (.timeout (c.node.getD "") limit)) gaps ending s' ∧
        ∀ gap ∈ gaps, W gap.before gap.after) s := by
  have hnow : (s.timed c limit).now ≤ s.now + limit.waitMillis := Nat.le_add_right _ _
  have hwork := until_bounded W (a.execute input (s.derive c).1) hnow
  have hstart : ((a.timingOut limit).start input c).Until W none
      (fun s' => s'.now < s.now + limit.waitMillis) (fun _ _ => True) s :=
    .of_poll_eq (a.poll_timingOut limit input c s)
      ((hwork.within hnow fun _ _ _ _ => trivial).mono (fun _ hI => hI.2) fun _ _ hQ => hQ)
  have hexecute : ((a.timingOut limit).execute input c).Until W none
      (fun s' => s'.now < s.now + limit.waitMillis) (fun _ _ => True) s := by
    refine hstart.andThen fun ending s' _ => ?_
    cases ending <;> exact .finish trivial
  refine hexecute.polled.mono (fun _ hI => hI) ?_
  rintro ending s' ⟨-, gaps, hpolled, hgaps⟩
  exact ⟨gaps, polled_timingOut_iff.mp hpolled, hgaps⟩

end Agent

/-! ## What is left behind -/

/-- From the one session to the other, a call that waits is abandoned: it is dropped, and its context
is cancelled. -/
structure Call.Abandoned {α : Type} (rest : Call α) (own : Context) (s s' : Session) : Prop where
  /-- No time passes, no call is counted, no timer is set and nothing is set off. -/
  uncalled : s.Uncalled s'
  /-- The context and those derived from it are cancelled, and no others are. -/
  cancelled : ∀ d, s'.isCancelled d = true ↔ d.Under own ∨ s.isCancelled d = true
  /-- Only those events are entered that stand for the call's being dropped, and those that waited
  for a cancellation. -/
  journal : ∃ seen, s'.journal = seen ++ rest.guards.map (⟨s.now, ·⟩) ++ s.journal ∧
    ∀ entry ∈ seen, entry.time = s.now ∧ ∃ w ∈ s.watches, w.2 = entry.event

theorem Session.journal_cancel (s : Session) (c : Context) : ∃ seen,
    (s.cancel c).journal = seen ++ s.journal ∧
      ∀ entry ∈ seen, entry.time = s.now ∧ ∃ w ∈ s.watches, w.2 = entry.event := by
  unfold cancel
  simp only [foldl_record_eq]
  refine ⟨_, rfl, fun entry hentry => ?_⟩
  obtain ⟨w, hw, rfl⟩ := mem_map.mp (mem_reverse.mp hentry)
  rw [partition_eq_filter_filter] at hw
  exact ⟨rfl, w, (mem_filter.mp hw).1, rfl⟩

theorem Call.abandoned {α : Type} (rest : Call α) (own : Context) (s : Session) :
    rest.Abandoned own s ((rest.drop s).cancel own) := by
  have hdropped : s.Uncalled (rest.drop s) := by
    rw [drop_eq]
    exact ⟨⟨⟨Nat.le_refl _, Nat.le_refl _, Subset.refl _⟩, rfl⟩, rfl, rfl, rfl⟩
  refine ⟨hdropped.trans (.cancel _ own), fun d => ?_, ?_⟩
  · rw [Session.isCancelled_cancel_iff, Session.isCancelled, drop_registry]
    rfl
  · obtain ⟨seen, hjournal, hseen⟩ := (rest.drop s).journal_cancel own
    rw [drop_eq] at hjournal hseen ⊢
    exact ⟨seen, hjournal.trans (append_assoc _ _ _).symm, hseen⟩

namespace Agent

/-- However it is polled and whatever happens meanwhile, an execution under a time limit ends as the
work does if that ends in time, and at once, and otherwise, exactly when the time is over, with a
failure that names the node of the context and the limit. It never waits for longer. Alone on a
timeline it so comes to its report. The work that was found waiting is dropped, which counts no call
and enters no events but those of the dropping itself, and the context of the work is cancelled. Of
several limits, the innermost of the shortest ones decides in this way. -/
theorem timingOut_law (a : Agent ι ω) (input : Datum ι) (c : Context) (s : Session) :
    (∀ limit gaps ending s',
      ((a.timingOut limit).execute input c).Polled s gaps (.ended ending) s' ↔
        (a.execute input (s.derive c).1).Raced (s.timed c limit) (s.now + limit.waitMillis)
          (s.derive c).1 (.failure (.timeout (c.node.getD "") limit)) gaps ending s') ∧
    (∀ W limit, ((a.timingOut limit).execute input c).Until W none
      (fun s' => s'.now < s.now + limit.waitMillis) (fun ending s' => ∃ gaps,
        (a.execute input (s.derive c).1).Raced (s.timed c limit) (s.now + limit.waitMillis)
          (s.derive c).1 (.failure (.timeout (c.node.getD "") limit)) gaps ending s' ∧
        ∀ gap ∈ gaps, W gap.before gap.after) s) ∧
    (∀ limit horizon, s.now + limit.waitMillis < horizon → ∃ gaps ending s',
      (a.execute input (s.derive c).1).Raced (s.timed c limit) (s.now + limit.waitMillis)
        (s.derive c).1 (.failure (.timeout (c.node.getD "") limit)) gaps ending s' ∧
      Timeline.settle s.now horizon
          (Timeline.alone ((a.timingOut limit).execute input c) (some c)) s =
        ([⟨some ending, s'.now - s.now, s'.isCancelled c⟩], s')) ∧
    (∀ (rest : Call (Datum ω)) own s₁, rest.Abandoned own s₁ ((rest.drop s₁).cancel own)) ∧
    ∀ limits : List Duration, limits ≠ [] → ∃ outer limit inner,
      limits = outer ++ limit :: inner ∧ (∀ o ∈ outer, limit.waitMillis ≤ o.waitMillis) ∧
      (∀ i ∈ inner, limit.waitMillis < i.waitMillis) ∧
      ∀ gaps ending s', ((a.limited limits).execute input c).Polled s gaps (.ended ending) s' ↔
        (a.execute input (s.entered c limits).1).Raced (s.entered c limits).2
          (s.now + limit.waitMillis) (s.entered c (outer ++ [limit])).1
          (.failure (.timeout (c.node.getD "") limit)) gaps ending s' := by
  refine ⟨fun _ _ _ _ => polled_timingOut_iff, fun W limit => a.until_timingOut input c s limit W,
    fun limit horizon hhorizon => ?_, fun rest own s₁ => rest.abandoned own s₁,
    fun limits hlimits => ?_⟩
  case refine_1 =>
    obtain ⟨ending, s', ⟨gaps, hraced, -⟩, hsettle⟩ :=
      Timeline.settle_alone_of_until (some c) s.now (fun _ _ _ => trivial)
        (a.until_timingOut input c s limit fun _ _ => True)
        fun ending s' ⟨gaps, hraced, _⟩ =>
          Nat.lt_of_le_of_lt (hraced.now_le (Nat.le_add_right _ _)) hhorizon
    exact ⟨gaps, ending, s', hraced, hsettle⟩
  case refine_2 =>
    obtain ⟨outer, limit, inner, rfl, houter, hinner⟩ := exists_deciding hlimits
    exact ⟨outer, limit, inner, rfl, houter, hinner,
      fun _ _ _ => polled_limited_iff_raced houter hinner⟩

/-- An agent that takes five milliseconds. -/
def leisurely : Agent .text .text :=
  .scripted 0 "slow" "slow" .shared
    ⟨none, false, none, some (.ofMillis 5), false, false, .succeed .identity⟩ []

/-- Two and a half milliseconds, which a timer rounds up to three. -/
def tightLimit : Duration := ⟨2_500_000, by decide⟩

/-- Two limits of three milliseconds in a longer one. -/
def nestedLimits : List Duration := [.ofMillis 10, .ofMillis 3, tightLimit]

def leisurelyContext : Context := ⟨0, ⟨0, []⟩, none⟩

/-- The session in which three limits are set and the agent waits. -/
def leisurelySession (now : Nat) : Session :=
  ⟨now, 4, ⟨3, 0, []⟩, [(0, 1)], [⟨0, "slow", 0, .started (.text "x")⟩], [], []⟩

theorem deciding_nestedLimits {outer inner : List Duration}
    (h : nestedLimits = outer ++ limit :: inner)
    (hinner : ∀ i ∈ inner, limit.waitMillis < i.waitMillis) :
    outer = [.ofMillis 10, .ofMillis 3] ∧ limit = tightLimit := by
  match outer, h with
  | [], h =>
      cases h
      exact absurd (hinner tightLimit (by simp)) (by decide)
  | [_], h =>
      cases h
      exact absurd (hinner tightLimit (by simp)) (by decide)
  | [_, _], h =>
      cases h
      exact ⟨rfl, rfl⟩
  | _ :: _ :: _ :: _, h => simp [nestedLimits] at h

/-- The inner one of the two limits of three milliseconds decides. -/
theorem timingOut_law_nested :
    nestedLimits ≠ [] ∧
    (∃ gaps ending s', Timeline.settle 0 5 (Timeline.alone
        ((leisurely.timingOut tightLimit).execute (.ofText "x") leisurelyContext)
        (some leisurelyContext)) .initial =
      ([⟨some ending, s'.now, s'.isCancelled leisurelyContext⟩], s') ∧
      (leisurely.execute (.ofText "x") (Session.initial.derive leisurelyContext).1).Raced
        (Session.initial.timed leisurelyContext tightLimit) 3
        (Session.initial.derive leisurelyContext).1
        (.failure (.timeout "" tightLimit)) gaps ending s') ∧
    ∃ s', ((leisurely.limited nestedLimits).execute (.ofText "x") leisurelyContext).Polled .initial
      [⟨leisurelySession 0, leisurelySession 3⟩] (.ended (.failure (.timeout "" tightLimit))) s' := by
  obtain ⟨-, -, hsettles, -, hstack⟩ :=
    leisurely.timingOut_law (.ofText "x") leisurelyContext .initial
  refine ⟨by decide, ?_, ?_⟩
  · obtain ⟨gaps, ending, s', hraced, hsettle⟩ := hsettles tightLimit 5 (by decide)
    exact ⟨gaps, ending, s', hsettle, hraced⟩
  · obtain ⟨outer, limit, inner, hlimits, -, hinner, hdecides⟩ := hstack nestedLimits (by decide)
    obtain ⟨rfl, rfl⟩ := deciding_nestedLimits hlimits hinner
    refine ⟨_, (hdecides _ _ _).mpr
      (.expires (fun gap hgap => ?_) (.again rfl ?_ (.once rfl)) rfl rfl)⟩
    · obtain rfl := mem_singleton.mp hgap
      exact ⟨by decide, by decide⟩
    · rintro t ⟨rfl⟩
      decide

end Agent

end Orchestration
