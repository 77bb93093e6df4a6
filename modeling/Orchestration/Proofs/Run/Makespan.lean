import Mathlib.Order.Bounds.Basic
import Orchestration.Proofs.Run.Alone
import Orchestration.Proofs.Run.Interruption
import Orchestration.Proofs.Run.Pace
import Orchestration.Proofs.Run.Unhindered

/-! # How long a run takes

Alone on a timeline, a run whose nodes all succeed after fixed waits ends as a greedy schedule does:
at each instant the run starts all it can, and the clock jumps to a time at which some node is done
or goes on waiting. -/

namespace Orchestration

open List Timeline

/-- What has not ended in a turn of all tasks has been polled, and waits. -/
theorem Task.exists_poll_of_mem {tasks : List Task} {s : Session} {t : Task}
    (h : t ∈ (pollWhere (wakesWith none) tasks s).1.2) :
    ∃ u ∈ tasks, ∃ call s₁ s₂, u.call.poll s₁ = (.waiting call, s₂) ∧ s₁.now = s.now ∧
      t = ⟨u.node, call⟩ := by
  induction tasks generalizing s with
  | nil => cases h
  | cons u rest ih =>
      have hrest : t ∈ (pollWhere (wakesWith none) rest (u.call.poll s).2).1.2 →
          ∃ u' ∈ u :: rest, ∃ call s₁ s₂, u'.call.poll s₁ = (.waiting call, s₂) ∧
            s₁.now = s.now ∧ t = ⟨u'.node, call⟩ := by
        intro ht
        obtain ⟨u', hu', call, s₁, s₂, hpoll, hnow, heq⟩ := ih ht
        exact ⟨u', mem_cons_of_mem _ hu', call, s₁, s₂, hpoll,
          hnow.trans (u.call.atOnce_poll s).still, heq⟩
      rw [pollWhere_of_wanted rfl] at h
      cases hpoll : u.call.poll s with
      | mk state s' =>
          rw [hpoll] at h hrest
          cases state with
          | ended ending => exact hrest h
          | waiting call =>
              rcases mem_cons.mp h with rfl | h
              · exact ⟨u, mem_cons_self, call, s, s', hpoll, rfl, rfl⟩
              · exact hrest h

namespace Stage

/-! ## Stages on time -/

/-- A run that keeps its pace, and either goes on without being hindered or has succeeded. -/
structure OnTime (j : Job) (wait left : String → Nat) (start elapsed : Nat) (g : Stage) : Prop where
  reached : j.Reaches g
  paced : g.Paced j wait left start elapsed
  verdict : g.verdict = .goesOn ∨ g.verdict = .succeeded
  unhindered : g.verdict = .goesOn → g.Unhindered j

namespace OnTime

variable {j : Job} {wait left : String → Nat} {start elapsed : Nat} {g : Stage}
  (hjob : j.Punctual wait)

include hjob

theorem after (h : g.OnTime j wait left start elapsed) {m : Move}
    (hm : ∀ change, m ≠ .meanwhile change) : (g.after m).OnTime j wait left start elapsed := by
  have haccounts := h.reached.accounts hjob.built
  rcases h.verdict with hgoes | hsucceeded
  · have hunhindered := h.unhindered hgoes
    cases m with
    | meanwhile change => exact absurd rfl (hm change)
    | poll i =>
        have hchanges := changesAtOnce_poll hgoes i
        have hafter : g.after (.poll i) = g.poll i := by simp only [Stage.after, hgoes]
        rw [hafter]
        exact ⟨h.reached.changes (changes_of_atOnce hchanges),
          h.paced.changes haccounts hjob hchanges, .inl ((g.poll_verdict i).trans hgoes),
          fun _ => hunhindered.poll i⟩
    | round =>
        have hchanges := changesAtOnce_round hgoes
        have hpaced := h.paced.changes haccounts hjob hchanges
        obtain ⟨huncancelled, hstill⟩ := hunhindered.round haccounts hjob.built hgoes
        have hafter : g.after .round = g.round := by simp only [Stage.after, hgoes]
        rw [hafter]
        refine ⟨h.reached.changes (changes_of_atOnce hchanges), hpaced, ?_, hstill⟩
        cases hverdict : g.round.verdict with
        | goesOn => exact .inl rfl
        | succeeded => exact .inr rfl
        | failed n f => exact absurd hverdict (hpaced.unfailed n f)
        | cancelled => exact absurd hverdict huncancelled
  · rwa [after_of_over (by simp [hsucceeded])]

theorem through (h : g.OnTime j wait left start elapsed) {moves : List Move}
    (hmoves : ∀ m ∈ moves, ∀ change, m ≠ .meanwhile change) :
    (g.through moves).OnTime j wait left start elapsed := by
  induction moves generalizing g with
  | nil => exact h
  | cons m moves ih =>
      exact ih (h.after hjob (hmoves m mem_cons_self)) fun m' hm' =>
        hmoves m' (mem_cons_of_mem _ hm')

theorem ownTurn (h : g.OnTime j wait left start elapsed) :
    g.ownTurn.OnTime j wait left start elapsed := by
  refine h.through hjob fun m hm change => ?_
  rw [eq_of_mem_replicate hm]
  simp

theorem taskTurn (h : g.OnTime j wait left start elapsed) (timer : Option Timer) :
    (g.taskTurn timer).OnTime j wait left start elapsed := by
  by_cases hgoes : g.verdict = .goesOn
  · obtain ⟨positions, hpositions⟩ := exists_taskTurn_eq hgoes timer
    rw [taskTurn_of_goesOn hgoes, ← hpositions]
    refine h.through hjob fun m hm change => ?_
    obtain ⟨i, -, rfl⟩ := mem_map.mp hm
    simp
  · rwa [taskTurn_of_over hgoes]

/-- After its own turn a run that goes on has observed all endings and started what it could. -/
theorem poised (h : g.OnTime j wait left start elapsed)
    (hgoes : g.ownTurn.verdict = .goesOn) :
    g.ownTurn.run.Poised j ∧ g.ownTurn.run.ended = [] := by
  have hbefore : g.verdict = .goesOn := by
    by_contra hover
    rw [ownTurn_of_over hover] at hgoes
    exact hover hgoes
  have hturn : g.run.ownTurn g.session = (.waiting g.ownTurn.run, g.ownTurn.session) := by
    rw [ownTurn_eq_progress hbefore]
    exact progress_of_goesOn hgoes
  exact Run.poised_of_observe (r := { g.run with ended := [] })
    (h.reached.accounts hjob.built).job h.reached.lineage_subset rfl hturn

/-- After the turns of its tasks a run that goes on has lost nothing, and all tasks that have not
ended are asleep. -/
theorem tasksTurn (h : g.OnTime j wait left start elapsed) (hgoes : g.verdict = .goesOn)
    (hpoised : g.run.Poised j) (timers : List Timer) :
    let g' := g.tasksTurn timers
    g'.OnTime j wait left start elapsed ∧ g'.verdict = .goesOn ∧ g'.run.Poised j ∧
      g'.log = g.log ∧ ∀ t ∈ g'.run.tasks, t.call.Asleep (left t.node.id) (start + elapsed) := by
  let P (g' : Stage) := g'.OnTime j wait left start elapsed ∧ g'.verdict = .goesOn ∧
    g'.run.Poised j ∧ g'.log = g.log
  have hturn : ∀ g' timer, P g' → P (g'.taskTurn timer) := by
    rintro g' timer ⟨hontime, hgoes', hpoised', hlog⟩
    refine ⟨hontime.taskTurn hjob timer, ?_⟩
    rw [taskTurn_of_goesOn hgoes']
    exact ⟨hgoes', hpoised'.taskTurn timer g'.session, hlog⟩
  obtain ⟨g', h', hlast⟩ := tasksTurn_induction (P := P) ⟨h, hgoes, hpoised, rfl⟩ hturn timers
  intro g''
  obtain ⟨hontime, hgoes', hpoised', hlog⟩ := hturn g' none h'
  have hg'' : g'' = g'.taskTurn none := hlast
  rw [hg'']
  refine ⟨hontime, hgoes', hpoised', hlog, fun t ht => ?_⟩
  rw [taskTurn_of_goesOn h'.2.1] at ht
  obtain ⟨u, hu, call, s, s', hpoll, hnow, rfl⟩ := Task.exists_poll_of_mem ht
  exact (h'.1.paced.tasks u hu).asleep (hnow.trans h'.1.paced.clock) hpoll

omit hjob in
/-- An own turn that finds endings and goes on completes some node. -/
theorem completions_lt (h : g.OnTime j wait left start elapsed) (hgoes : g.verdict = .goesOn)
    (hgoes' : g.ownTurn.verdict = .goesOn) (hended : g.run.ended ≠ []) :
    g.completions < g.ownTurn.completions := by
  have hturn : g.ownTurn = g.round.through (replicate g.run.ended.length .round) :=
    through_replicate_round hgoes _
  have hround : g.round.verdict = .goesOn := by
    by_contra hover
    rw [hturn, through_of_over hover] at hgoes'
    exact hover hgoes'
  have hlater : g.round.completions ≤ g.ownTurn.completions := by
    rw [hturn, ← along_getD]
    exact completions_mono (log_of_changes (changes_along ..))
  exact (completions_round hround (h.unhindered hgoes).uncancelled hended).trans_le hlater

/-- When no task has ended, the run does nothing in its own turn, and is at rest. -/
theorem atRest (h : g.OnTime j wait left start elapsed) (hgoes : g.verdict = .goesOn)
    (hpoised : g.run.Poised j) (hended : g.run.ended = [])
    (hasleep : ∀ t ∈ g.run.tasks, t.call.Asleep (left t.node.id) (start + elapsed)) :
    g.ownTurn.AtRest j left (start + elapsed) := by
  have hturn := hpoised.ownTurn_of_none hended (h.unhindered hgoes).uncancelled
  rw [ownTurn_eq_progress hgoes] at hturn
  obtain ⟨hgoes', hrun, -⟩ := progress_eq_waiting hturn
  have hrun : g.ownTurn.run = g.run := hrun
  have hbusy := hpoised.busy
  rw [hended, length_nil, Nat.zero_add] at hbusy
  constructor
  case goes => exact hgoes'
  case observed => rw [hrun, hended]
  case fills =>
    rw [hrun]
    exact hpoised.fills (h.reached.allows hjob.built)
  case busy => rwa [hrun]
  case tasks => rwa [hrun]

/-! ## Instants -/

/-- Tasks and run take turns until the run is over or at rest, since in each turn but the last some
node completes. -/
theorem exists_takeTurns (c : Option Context) (fuel : Nat) (h : g.OnTime j wait left start elapsed)
    (hgoes : g.verdict = .goesOn → g.run.Poised j ∧ g.run.ended = [] ∧
      j.plan.ids.length - g.completions < fuel) :
    ∃ g' : Stage, takeTurns start fuel [g.slot start c] g.session =
        ([g'.slot start c], g'.session) ∧
      g'.OnTime j wait left start elapsed ∧
      (g'.verdict = .goesOn → g'.AtRest j left (start + elapsed)) := by
  induction fuel generalizing g with
  | zero =>
      have hover : g.verdict ≠ .goesOn := fun hgoing => Nat.not_lt_zero _ (hgoes hgoing).2.2
      exact ⟨g, rfl, h, fun hgoing => absurd hgoing hover⟩
  | succ fuel ih =>
      by_cases hgoing : g.verdict = .goesOn
      · obtain ⟨hpoised, hobserved, hfuel⟩ := hgoes hgoing
        obtain ⟨timers, hbusy, hquiet⟩ := g.exists_takeTurns_succ start fuel c
        obtain ⟨htasks, hgoing', hpoised', hlog, hasleep⟩ := h.tasksTurn hjob hgoing hpoised timers
        generalize g.tasksTurn timers = g' at *
        have hcount : g'.completions = g.completions := by rw [completions, hlog]; rfl
        by_cases hended : g'.run.ended = []
        · rw [hquiet fun hnews => hnews.2 hended]
          exact ⟨g'.ownTurn, rfl, htasks.ownTurn hjob,
            fun _ => htasks.atRest hjob hgoing' hpoised' hended hasleep⟩
        · rw [hbusy ⟨hgoing', hended⟩]
          refine ih (htasks.ownTurn hjob) fun hgoes' => ?_
          obtain ⟨hpoised'', hobserved''⟩ := htasks.poised hjob hgoes'
          refine ⟨hpoised'', hobserved'', ?_⟩
          have hmore := htasks.completions_lt hgoing' hgoes' hended
          have hall := ((htasks.ownTurn hjob).reached.accounts hjob.built).completions_le
            hjob.built hjob.exists_input_of_root
          omega
      · exact ⟨g, takeTurns_of_over hgoing _, h, fun hgoing' => absurd hgoing' hgoing⟩

/-- In an instant of its timeline the run ends, or it comes to rest. -/
theorem exists_instant (c : Option Context) (h : g.OnTime j wait left start elapsed) :
    ∃ g' : Stage, instant start [g.slot start c] g.session = ([g'.slot start c], g'.session) ∧
      g'.OnTime j wait left start elapsed ∧
      (g'.verdict = .goesOn → g'.AtRest j left (start + elapsed)) := by
  rw [instant_eq]
  refine (h.ownTurn hjob).exists_takeTurns hjob c _ fun hgoes => ?_
  obtain ⟨hpoised, hobserved⟩ := h.poised hjob hgoes
  refine ⟨hpoised, hobserved, ?_⟩
  rw [turnLimit_slot hgoes, hpoised.job, Plan.ids, length_map]
  omega

end OnTime

end Stage

/-! ## Starts -/

/-- The node has been put in flight. -/
def Execution.HasStarted (id : String) : Execution → Prop
  | requested _ => False
  | underway r => id ∈ r.tasks.map (·.node.id) ∨ id ∈ r.ended.map (·.node.id) ∨
    id ∈ r.outputs.entries.keys

namespace Timeline

/-- The node has been put in flight by the run of this slot, which has not failed. -/
def HasStarted (id : String) : Slot Execution RunResult → Prop
  | .waiting e => e.work.HasStarted id
  | .ended report => ∃ outputs, report.result = some (.ok outputs) ∧ id ∈ outputs.entries.keys

/-- The first instant of the timeline that leaves the node started comes at this time. -/
def StartsAt (start horizon : Nat) (slots : List (Slot Execution RunResult)) (s : Session)
    (id : String) (time : Nat) : Prop :=
  IsLeast {t | ∃ after, Passes start horizon slots s t after ∧ ∃ slot ∈ after, HasStarted id slot}
    time

end Timeline

theorem Stage.Accounts.hasStarted_slot_iff {j : Job} {g : Stage} (h : g.Accounts j)
    (hverdict : g.verdict = .goesOn ∨ g.verdict = .succeeded) (start : Nat) (c : Option Context)
    (id : String) : HasStarted id (g.slot start c) ↔ ∃ v, .started id v ∈ g.log := by
  have hplaces : (∃ v, .started id v ∈ g.log) ↔
      id ∈ g.taskIds ∨ id ∈ g.endedIds ∨ id ∈ g.run.outputs.entries.keys := by
    have hnone : g.verdict.failedIds = [] := by
      rcases hverdict with hverdict | hverdict <;> rw [hverdict] <;> rfl
    have hflights := (h.flights.mem_iff (a := id))
    rw [hnone, append_nil, ← h.outputs, mem_append, mem_append, or_assoc] at hflights
    rw [Entries.keys, ← hflights, mem_map]
    constructor
    · rintro ⟨v, hv⟩
      exact ⟨(id, v), (mem_startedIn _ _ _).mpr hv, rfl⟩
    · rintro ⟨⟨id, v⟩, hmem, rfl⟩
      exact ⟨v, (mem_startedIn _ _ _).mp hmem⟩
  rw [hplaces]
  rcases hverdict with hgoes | hsucceeded
  · rw [slot_of_goesOn hgoes]
    rfl
  · obtain ⟨-, htasks, hended⟩ := h.idle hsucceeded
    have hresult : g.result? = some (.ok g.run.outputs) :=
      (g.result?_eq_ok_iff _).mpr ⟨hsucceeded, rfl⟩
    rw [slot_of_over hresult]
    simp [HasStarted, taskIds, endedIds, htasks, hended]

namespace Job

/-- On the timeline from here on, a run that was started earlier ends in its makespan. No node is
started before its lead is over, and without a limit each of these nodes is started then. -/
structure KeepsTime (j : Job) (wait : String → Nat) (unstarted : String → Prop)
    (start horizon : Nat) (slots : List (Slot Execution RunResult)) (s : Session) : Prop where
  ends : ∃ outputs elapsed cancelled s', settle start horizon slots s =
    ([⟨some (.ok outputs), elapsed, cancelled⟩], s') ∧ j.Makespan wait elapsed
  notBefore : ∀ time after slot id, Passes start horizon slots s time after → slot ∈ after →
    HasStarted id slot → start + j.plan.lead wait id ≤ time
  starts : j.maxConcurrency = none → ∀ id ∈ j.plan.ids, unstarted id → ∃ after,
    Passes start horizon slots s (start + j.plan.lead wait id) after ∧
    ∃ slot ∈ after, HasStarted id slot

namespace KeepsTime

variable {j : Job} {wait left : String → Nat} {start elapsed horizon : Nat}
  {slots : List (Slot Execution RunResult)} {s : Session} {c : Option Context} {g : Stage}
  {unstarted : String → Prop}

section

variable (hjob : j.Punctual wait)
  (hinstant : instant start slots s = ([g.slot start c], g.session)) (hearly : s.now < horizon)
  (hnow : s.now = start + elapsed) (h : g.OnTime j wait left start elapsed)
  (hspent : j.Spent wait left elapsed)

include hjob hinstant hnow h hspent

/-- What an instant leaves started is not before its time. -/
theorem notBefore_now {slot : Slot Execution RunResult} {id : String}
    (hslot : slot ∈ (instant start slots s).1) (hstarted : HasStarted id slot) :
    start + j.plan.lead wait id ≤ s.now := by
  have haccounts := h.reached.accounts hjob.built
  rw [hinstant] at hslot
  obtain rfl := mem_singleton.mp hslot
  obtain ⟨v, hv⟩ := (haccounts.hasStarted_slot_iff h.verdict start c id).mp hstarted
  have hlead := h.paced.lead_le haccounts hspent hv
  omega

include hearly

/-- What an instant leaves started, though not late, starts at its time. -/
theorem starts_now {id : String} {v : Value} (hstarted : .started id v ∈ g.log)
    (hlate : elapsed ≤ j.plan.lead wait id) : ∃ after,
    Passes start horizon slots s (start + j.plan.lead wait id) after ∧
      ∃ slot ∈ after, HasStarted id slot := by
  have haccounts := h.reached.accounts hjob.built
  have hlead := h.paced.lead_le haccounts hspent hstarted
  have htime : start + j.plan.lead wait id = s.now := by omega
  rw [htime]
  refine ⟨_, .now hearly, g.slot start c, ?_, ?_⟩
  · rw [hinstant]
    exact mem_singleton_self _
  · exact (haccounts.hasStarted_slot_iff h.verdict start c id).mpr ⟨v, hstarted⟩

/-- The run ends in this instant. -/
theorem of_succeeded (hsucceeded : g.verdict = .succeeded)
    (hlate : j.maxConcurrency = none → ∀ id ∈ j.plan.ids, unstarted id →
      elapsed ≤ j.plan.lead wait id) :
    j.KeepsTime wait unstarted start horizon slots s := by
  have haccounts := h.reached.accounts hjob.built
  have hresult : g.result? = some (.ok g.run.outputs) :=
    (g.result?_eq_ok_iff _).mpr ⟨hsucceeded, rfl⟩
  have hover : g.slot start c = _ := Stage.slot_of_over hresult
  constructor
  case ends =>
    have helapsed : g.session.now - start = elapsed := by
      rw [h.paced.clock, Nat.add_sub_cancel_left]
    refine ⟨g.run.outputs, elapsed, (c.map g.session.isCancelled).getD false, g.session, ?_,
      h.paced.makespan haccounts hjob hspent hsucceeded⟩
    rw [settle_of_lt hearly, hinstant, hover, helapsed]
    rfl
  case notBefore =>
    intro time after slot id hpasses hslot hstarted
    cases hpasses with
    | now => exact notBefore_now hjob hinstant hnow h hspent hslot hstarted
    | later _ hwaits _ =>
        rw [hinstant, hover] at hwaits
        cases hwaits
  case starts =>
    intro hunlimited id hid hunstarted
    have hkeys := haccounts.perm_keys_of_succeeded hjob.built hjob.exists_input_of_root hsucceeded
    obtain ⟨w, hw⟩ := (haccounts.mem_keys_iff id).mp (hkeys.mem_iff.mpr hid)
    obtain ⟨-, -, -, v, -, -, hstarted, -⟩ := haccounts.cameTo_of_completed hw
    exact starts_now hjob hinstant hearly hnow h hspent hstarted
      (hlate hunlimited id hid hunstarted)

/-- The run goes on after this instant. -/
theorem of_goesOn (hgoes : g.verdict = .goesOn)
    (hlater : j.KeepsTime wait (fun id => ∀ v, .started id v ∉ g.log) start horizon
      [g.slot start c] (g.session.advance (nextTime horizon [g.slot start c] s.now)))
    (hlate : j.maxConcurrency = none → ∀ id ∈ j.plan.ids, unstarted id →
      elapsed ≤ j.plan.lead wait id) :
    j.KeepsTime wait unstarted start horizon slots s := by
  have hwaits : (underway [g.slot start c]).isEmpty = false := by
    rw [Stage.slot_of_goesOn hgoes]
    rfl
  constructor
  case ends =>
    rw [settle_of_lt hearly, hinstant]
    dsimp only
    rw [hwaits, if_neg Bool.false_ne_true]
    exact hlater.ends
  case notBefore =>
    intro time after slot id hpasses hslot hstarted
    cases hpasses with
    | now => exact notBefore_now hjob hinstant hnow h hspent hslot hstarted
    | later _ _ hpasses =>
        rw [hinstant] at hpasses
        exact hlater.notBefore time after slot id hpasses hslot hstarted
  case starts =>
    intro hunlimited id hid hunstarted
    by_cases hstarted : ∃ v, .started id v ∈ g.log
    · obtain ⟨v, hv⟩ := hstarted
      exact starts_now hjob hinstant hearly hnow h hspent hv (hlate hunlimited id hid hunstarted)
    · obtain ⟨after, hpasses, hshown⟩ :=
        hlater.starts hunlimited id hid (not_exists.mp hstarted)
      refine ⟨after, .later hearly ?_ ?_, hshown⟩
      · rwa [hinstant]
      · rwa [hinstant]

end

end KeepsTime

end Job

namespace Stage

variable {j : Job} {wait left : String → Nat} {start elapsed horizon : Nat} {g : Stage}
  {c : Option Context}

/-- The clock does not pass the timers of tasks that are asleep. -/
theorem AtRest.nextTime_le (h : g.AtRest j left (start + elapsed)) :
    ∀ t ∈ g.run.tasks, ∀ u ∈ t.call.nextTimer,
      nextTime horizon [g.slot start c] (start + elapsed) ≤ u.due := by
  intro t ht u hu
  obtain ⟨u', hu', hlater, -⟩ := (h.tasks t ht).timer
  obtain rfl := Option.mem_unique hu hu'
  exact nextTime_le_due h.goes ht hu hlater

/-- When the clock has jumped, a run that was at rest is on time. -/
theorem OnTime.advance (hjob : j.Punctual wait) (h : g.OnTime j wait left start elapsed)
    (hrest : g.AtRest j left (start + elapsed)) {amount : Nat}
    (hquiet : ∀ t ∈ g.run.tasks, ∀ u ∈ t.call.nextTimer, start + elapsed + amount ≤ u.due) :
    { g with session := g.session.advance (start + (elapsed + amount)) }.OnTime j wait
      (g.leftAfter left amount) start (elapsed + amount) := by
  have haccounts := h.reached.accounts hjob.built
  exact ⟨h.reached.change (.meanwhile g _), hrest.paced hquiet haccounts h.paced hjob.built rfl,
    h.verdict, fun hgoes => (h.unhindered hgoes).advance _⟩

/-- The run of a stage on time keeps its time to the end. -/
theorem OnTime.keepsTime (hjob : j.Punctual wait) (hhorizon : start + j.plan.total wait < horizon)
    (h : g.OnTime j wait left start elapsed) (hspent : j.Spent wait left elapsed)
    (hlate : j.maxConcurrency = none → ∀ id ∈ j.plan.ids, (∀ v, .started id v ∉ g.log) →
      elapsed ≤ j.plan.lead wait id)
    {slots : List (Slot Execution RunResult)} {s : Session}
    (hslots : instant start slots s = instant start [g.slot start c] g.session)
    (hnow : s.now = start + elapsed) :
    j.KeepsTime wait (fun id => ∀ v, .started id v ∉ g.log) start horizon slots s := by
  induction hleft : horizon - s.now using Nat.strongRecOn generalizing g slots s left elapsed with
  | _ remaining ih =>
      have hearly : s.now < horizon := by
        have hle := hspent.elapsed_le hjob.built
        omega
      obtain ⟨g', hinstant, h', hrests⟩ := h.exists_instant hjob c
      rw [← hslots] at hinstant
      rcases h'.verdict with hgoes | hsucceeded
      · have hrest := hrests hgoes
        have haccounts := h'.reached.accounts hjob.built
        have hlt := lt_nextTime horizon [g'.slot start c] s.now
        generalize htime : nextTime horizon [g'.slot start c] s.now = time at hlt
        obtain ⟨amount, rfl⟩ : ∃ amount, time = start + (elapsed + amount) :=
          ⟨time - s.now, by omega⟩
        have hquiet : ∀ t ∈ g'.run.tasks, ∀ u ∈ t.call.nextTimer,
            start + elapsed + amount ≤ u.due := by
          intro t ht u hu
          have hle : nextTime horizon [g'.slot start c] (start + elapsed) ≤ u.due :=
            hrest.nextTime_le t ht u hu
          rw [← hnow, htime] at hle
          omega
        refine Job.KeepsTime.of_goesOn hjob hinstant hearly hnow h' hspent hgoes ?_ hlate
        rw [htime]
        have hlater := h'.advance hjob hrest hquiet
        have hspent' := hrest.spent hquiet haccounts h'.paced hjob.built hspent
        refine ih _ ?_ hlater hspent' ?_ ?_ rfl rfl
        · change horizon - (start + (elapsed + amount)) < remaining
          omega
        · exact fun hunlimited id hid hunstarted =>
            hrest.le_lead hquiet haccounts h'.paced hjob hunlimited hid hunstarted
        · rw [slot_meanwhile hgoes (g'.session.advance _)]
      · exact Job.KeepsTime.of_succeeded hjob hinstant hearly hnow h' hspent hsucceeded hlate

theorem OnTime.opening {s s' : Session} {r : Run} (h : j.Unhindered s)
    (hbegin : j.begin s = (.waiting r, s')) : (Stage.opening r s').OnTime j wait wait s.now 0 :=
  ⟨.opening hbegin, .opening hbegin, .inl rfl, fun _ => .opening h hbegin⟩

end Stage

namespace Job

variable {j : Job} {wait : String → Nat} {s : Session} {horizon : Nat}

/-- An empty plan takes no time. -/
theorem settle_of_empty (hnodes : j.plan.nodes = []) (c : Option Context) (h : s.now < horizon) :
    settle s.now horizon (j.alone c) s =
      ([⟨some (.ok .empty), 0, (c.map s.isCancelled).getD false⟩], s) := by
  have hturn : Activity.ownTurn (Execution.requested j) s = (.ended (.ok .empty), s) :=
    ownTurn_of_empty hnodes s
  have hinstant : instant s.now (j.alone c) s =
      ([.ended ⟨some (.ok .empty), 0, (c.map s.isCancelled).getD false⟩], s) := by
    simp only [alone, instant, sweep, Engagement.ownTurn, hturn, Engagement.report, Nat.sub_self]
    simp [turnLimit, takeTurns, taskTurn, dueTimers, underway, sweep]
  rw [settle_of_lt h, hinstant]
  rfl

/-- A run alone, of an accepted plan whose nodes all succeed after fixed waits, succeeds. Without a
limit each node starts when the nodes before it have been waited for, one after another, and the run
takes as long as the critical path. With a limit it takes no longer than a greedy schedule may. -/
theorem run_makespan (hjob : j.Punctual wait) (hunhindered : j.Unhindered s) (c : Option Context)
    (hhorizon : s.now + j.plan.total wait < horizon) :
    (∃ outputs elapsed cancelled s', settle s.now horizon (j.alone c) s =
        ([⟨some (.ok outputs), elapsed, cancelled⟩], s') ∧ j.Makespan wait elapsed) ∧
    (j.maxConcurrency = none → ∀ id ∈ j.plan.ids,
      StartsAt s.now horizon (j.alone c) s id (s.now + j.plan.lead wait id)) := by
  by_cases hnodes : j.plan.nodes = []
  · refine ⟨⟨.empty, 0, _, s, settle_of_empty hnodes c (by omega), .of_empty hnodes⟩, ?_⟩
    simp [Plan.ids, hnodes]
  · obtain ⟨ready, -, hbegin⟩ := exists_begin_eq_waiting hnodes hjob.exists_input_of_root s
    obtain ⟨hends, hnotBefore, hstarts⟩ := (Stage.OnTime.opening hunhindered hbegin).keepsTime hjob
      hhorizon (.opening hjob.built hnodes) (fun _ _ _ _ => Nat.zero_le _)
      (Stage.instant_requested hbegin s.now c) rfl
    refine ⟨hends, fun hunlimited id hid => ⟨?_, ?_⟩⟩
    · exact hstarts hunlimited id hid fun v hv => by simp [Stage.opening, mem_allReadied] at hv
    · rintro time ⟨after, hpasses, slot, hslot, hstarted⟩
      exact hnotBefore time after slot id hpasses hslot hstarted

end Job

/-! ## Two nodes after a first one -/

/-- A step that waits so many milliseconds and marks its text. -/
def Step.dozing (millis : UInt64) : Step where
  startFault := none
  watch := false
  detach := none
  delay := some (.ofMillis millis)
  waitCancel := false
  cancel := false
  conclusion := .succeed .tag

def Node.sleeper (serial : Nat) (id : String) (millis : UInt64) : Node :=
  ⟨id, .text, .text, .scripted serial id id .shared (.dozing millis) []⟩

theorem Node.succeedsAfter_sleeper (serial : Nat) (id : String) (millis : UInt64) :
    (sleeper serial id millis).SucceedsAfter (Duration.ofMillis millis).waitMillis := by
  refine .of_agent (by simp [sleeper]) fun d c => ?_
  have hvalue : ∀ (node : Option String) (call : Nat) (d : Datum .text),
      ∃ v, (Step.dozing millis).conclusion.ending .text id node call d = .value v :=
    fun _ _ _ => ⟨_, rfl⟩
  have hscripted := Agent.succeedsAfter_scripted serial id id rfl rfl hvalue d c
  rwa [Step.dozing, Option.map_some, Option.getD_some] at hscripted

theorem Node.confined_sleeper (serial : Nat) (id : String) (millis : UInt64) (P : Nat → Prop) :
    (sleeper serial id millis).agent.Confined P :=
  fun A _ => Agent.confined_scripted serial id id .shared _ [] A fun _ h => h.elim

/-- A node of two milliseconds, and nodes of three and five after it. -/
def Plan.sleepers : Plan where
  nodes := [.sleeper 0 "a" 2, .sleeper 1 "b" 3, .sleeper 2 "c" 5]
  edges := [.between "a" "b", .between "a" "c"]
  links := [("a", "b"), ("a", "c")]
  order := ["a", "b", "c"]

def Job.sleepers (maxConcurrency : Option Nat) : Job where
  plan := .sleepers
  inputs := ⟨[("a", .text "x")]⟩
  maxConcurrency
  context := ⟨0, ⟨0, []⟩, none⟩

def Plan.sleepersWait (id : String) : Nat :=
  if id = "a" then 2 else if id = "b" then 3 else 5

theorem Job.punctual_sleepers (limit : Option Nat) :
    (sleepers limit).Punctual Plan.sleepersWait := by
  refine ⟨⟨⟨Plan.sleepers.nodes, Plan.sleepers.edges⟩, by rfl⟩, ?_, ?_⟩
  · intro n hn
    obtain rfl : n = .sleeper 0 "a" 2 := mem_singleton.mp hn
    rfl
  · have ha : (Node.sleeper 0 "a" 2).SucceedsAfter 2 := Node.succeedsAfter_sleeper 0 "a" 2
    have hb : (Node.sleeper 1 "b" 3).SucceedsAfter 3 := Node.succeedsAfter_sleeper 1 "b" 3
    have hc : (Node.sleeper 2 "c" 5).SucceedsAfter 5 := Node.succeedsAfter_sleeper 2 "c" 5
    simpa [sleepers, Plan.sleepers, Plan.sleepersWait, Node.sleeper] using ⟨ha, hb, hc⟩

theorem Job.unhindered_sleepers (limit : Option Nat) : (sleepers limit).Unhindered .second := by
  refine ⟨rfl, fun id hid => ?_, fun n hn => ?_⟩
  · obtain rfl : id = 0 := mem_singleton.mp hid
    exact Nat.one_pos
  · simp only [sleepers, Plan.sleepers, mem_cons, not_mem_nil, or_false] at hn
    rcases hn with rfl | rfl | rfl <;> exact Node.confined_sleeper _ _ _ _

/-- Without a limit the run takes seven milliseconds, and the last node starts after two. With one
node at a time it takes ten. -/
theorem Job.run_makespan_sleepers :
    (∃ outputs cancelled s', settle 0 11 ((sleepers none).alone none) .second =
      ([⟨some (.ok outputs), 7, cancelled⟩], s')) ∧
    StartsAt 0 11 ((sleepers none).alone none) .second "c" 2 ∧
    ∃ outputs cancelled s', settle 0 11 ((sleepers (some 1)).alone none) .second =
      ([⟨some (.ok outputs), 10, cancelled⟩], s') := by
  have htotal : Plan.sleepers.total Plan.sleepersWait = 10 := by decide
  have hcritical : Plan.sleepers.criticalPath Plan.sleepersWait = 7 := by decide
  have hlead : Plan.sleepers.lead Plan.sleepersWait "c" = 2 := by decide
  have hhorizon : Session.second.now + Plan.sleepers.total Plan.sleepersWait < 11 := by
    rw [htotal]
    decide
  obtain ⟨⟨outputs, elapsed, cancelled, s', hsettle, hspan⟩, hstarts⟩ :=
    run_makespan (punctual_sleepers none) (unhindered_sleepers none) none hhorizon
  obtain ⟨⟨outputs₁, elapsed₁, cancelled₁, s₁, hsettle₁, hspan₁⟩, -⟩ :=
    run_makespan (punctual_sleepers (some 1)) (unhindered_sleepers (some 1)) none hhorizon
  have helapsed : elapsed = 7 := (hspan.unlimited rfl).trans hcritical
  have helapsed₁ : elapsed₁ = 10 := (hspan₁.single 1 (Nat.le_refl 1) rfl).trans htotal
  have hstart := hstarts rfl "c" (by decide)
  subst helapsed helapsed₁
  refine ⟨⟨outputs, cancelled, s', hsettle⟩, ?_, outputs₁, cancelled₁, s₁, hsettle₁⟩
  exact hlead ▸ hstart

end Orchestration
