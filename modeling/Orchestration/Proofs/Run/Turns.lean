import Orchestration.Proofs.Run.Changes

/-! # The turns of a run are moves

On a timeline a run and its tasks take turns. What such turns lead to, however they alternate and
whatever happens to the session in between, is the run of a stage that moves lead to as well, so all
that is said about moves in any order holds there. -/

namespace Orchestration

open List

namespace Stage

/-- The stage after some moves. -/
def through (g : Stage) (moves : List Move) : Stage := moves.foldl after g

theorem through_of_over {g : Stage} (h : g.verdict ≠ .goesOn) (moves : List Move) :
    g.through moves = g := by
  induction moves with
  | nil => rfl
  | cons m moves ih =>
      rw [through, foldl_cons, after_of_over h]
      exact ih

theorem through_append (g : Stage) (moves others : List Move) :
    g.through (moves ++ others) = (g.through moves).through others :=
  foldl_append

theorem along_congr (g : Stage) {schedule other : Nat → Move} {n : Nat}
    (h : ∀ k < n, schedule k = other k) : g.along schedule n = g.along other n := by
  induction n with
  | zero => rfl
  | succ n ih =>
      rw [along, along, ih fun k hk => h k (Nat.lt_succ_of_lt hk), h n (Nat.lt_succ_self n)]

/-- Any list of moves is the beginning of a schedule. -/
theorem along_getD (g : Stage) (moves : List Move) :
    g.along (fun n => moves.getD n .round) moves.length = g.through moves := by
  induction moves using reverseRecOn with
  | nil => rfl
  | append_singleton moves m ih =>
      have hsame : ∀ k < moves.length,
          (moves ++ [m]).getD k .round = moves.getD k .round := by
        intro k hk
        simp [getElem?_append_left hk]
      rw [length_append, length_singleton, along, g.along_congr hsame, ih, through_append]
      simp [through]

/-! ## A run's own turn -/

/-- A run that starts nodes, looks at cancellation and goes on to observe an ending. -/
theorem observe_eq (g : Stage) (ended : List EndedTask) (hended : g.run.ended = ended) :
    Run.observe ended { g.run with ended := [] } g.session =
      if g.launch.session.isCancelled g.run.scope then
        (.ended (.error Run.cancelled), g.launch.run.halt g.launch.session)
      else match ended with
        | [] => if g.launch.run.tasks.isEmpty then
            (.ended (.ok g.run.outputs), g.launch.run.halt g.launch.session)
          else (.waiting g.launch.run, g.launch.session)
        | e :: rest => match e.result with
          | .ok output => Run.observe rest
              ({ g.launch.run with ended := [] }.complete e.node output) g.launch.session
          | .error f => (.ended (.error f), g.launch.run.halt g.launch.session) := by
  subst hended
  obtain ⟨⟨job, scope, ready, tasks, ended, outputs⟩, verdict, session, log⟩ := g
  rw [Run.observe]
  dsimp only [launch]
  congr 1
  cases ended with
  | nil => rfl
  | cons e rest =>
      obtain ⟨node, ending⟩ := e
      cases ending <;> rfl

theorem through_replicate_round {g : Stage} (hgoes : g.verdict = .goesOn) (k : Nat) :
    g.through (replicate (k + 1) .round) = g.round.through (replicate k .round) := by
  rw [replicate_succ, through, foldl_cons]
  simp only [after, hgoes]
  rfl

/-- Observing endings is one round for each of them, and a last one. -/
theorem observe_eq_progress (ended : List EndedTask) (g : Stage) (hgoes : g.verdict = .goesOn)
    (hended : g.run.ended = ended) :
    Run.observe ended { g.run with ended := [] } g.session =
      (g.through (replicate (ended.length + 1) .round)).progress := by
  induction ended generalizing g with
  | nil =>
      rw [observe_eq g [] hended, through_replicate_round hgoes]
      simp only [round, launch_scope]
      split
      · rfl
      · rw [observe, launch_ended, hended]
        dsimp only
        split
        · simp [through, settle, progress, result?]
        · simp [through, settle, progress, result?, hgoes]
  | cons e rest ih =>
      rw [observe_eq g (e :: rest) hended, through_replicate_round hgoes]
      simp only [round, launch_scope]
      split
      · rw [through_of_over (by simp [settle])]
        rfl
      · rw [observe, launch_ended, hended]
        dsimp only
        cases e.result with
        | ok output =>
            simp only [settle, launch_verdict, hgoes]
            let r := { g.launch.run with ended := rest }.complete e.node output
            exact ih ⟨r, .goesOn, g.launch.session, _⟩ rfl rfl
        | error f =>
            rw [through_of_over (by simp [settle])]
            rfl

theorem ownTurn_eq_progress {g : Stage} (hgoes : g.verdict = .goesOn) :
    g.run.ownTurn g.session =
      (g.through (replicate (g.run.ended.length + 1) .round)).progress :=
  observe_eq_progress g.run.ended g hgoes rfl

/-! ## A turn of the tasks -/

/-- The stage in which some tasks were polled one after another. -/
def withPolled (g : Stage) (ended : List EndedTask) (tasks : List Task) (s : Session) : Stage :=
  { g with run := { g.run with tasks, ended := g.run.ended ++ ended }, session := s }

/-- Polling the last tasks in order is a sequence of single polls. -/
theorem exists_polls (wanted : Task → Bool) (before tasks : List Task) (g : Stage)
    (hgoes : g.verdict = .goesOn) (htasks : g.run.tasks = before ++ tasks) :
    ∃ positions : List Nat, g.through (positions.map .poll) =
      g.withPolled (Task.pollWhere wanted tasks g.session).1.1
        (before ++ (Task.pollWhere wanted tasks g.session).1.2)
        (Task.pollWhere wanted tasks g.session).2 := by
  induction tasks generalizing before g with
  | nil =>
      refine ⟨[], ?_⟩
      simp [through, withPolled, Task.pollWhere, ← htasks]
  | cons t tasks ih =>
      rw [Task.pollWhere]
      by_cases hwanted : wanted t
      · rw [if_pos hwanted]
        have hposition : g.run.tasks[before.length]? = some t := by simp [htasks]
        cases hpoll : t.call.poll g.session with
        | mk state s =>
            cases state with
            | ended ending =>
                have hfirst : g.after (.poll before.length) =
                    g.withPolled [⟨t.node, ending⟩] (before ++ tasks) s := by
                  simp [after, hgoes, poll, hpoll, withPolled, htasks,
                    eraseIdx_append_of_length_le]
                obtain ⟨positions, hpositions⟩ :=
                  ih before (g.withPolled [⟨t.node, ending⟩] (before ++ tasks) s) hgoes rfl
                refine ⟨before.length :: positions, ?_⟩
                rw [map_cons, through, foldl_cons, hfirst, ← through, hpositions]
                simp [withPolled]
            | waiting call =>
                have hfirst : g.after (.poll before.length) =
                    g.withPolled [] (before ++ ⟨t.node, call⟩ :: tasks) s := by
                  simp [after, hgoes, poll, hpoll, withPolled, htasks]
                obtain ⟨positions, hpositions⟩ := ih (before ++ [⟨t.node, call⟩])
                  (g.withPolled [] (before ++ ⟨t.node, call⟩ :: tasks) s) hgoes
                  (by simp [withPolled])
                refine ⟨before.length :: positions, ?_⟩
                rw [map_cons, through, foldl_cons, hfirst, ← through, hpositions]
                simp [withPolled]
      · rw [if_neg hwanted]
        obtain ⟨positions, hpositions⟩ := ih (before ++ [t]) g hgoes (by simp [htasks])
        refine ⟨positions, ?_⟩
        simpa using hpositions

/-- A turn of the tasks is a sequence of single polls. -/
theorem exists_taskTurn_eq {g : Stage} (hgoes : g.verdict = .goesOn) (timer : Option Timer) :
    ∃ positions : List Nat, g.through (positions.map .poll) =
      { g with run := (g.run.taskTurn timer g.session).1
               session := (g.run.taskTurn timer g.session).2 } :=
  exists_polls (fun t => timer.all (t.call.nextTimer = some ·)) [] g.run.tasks g hgoes rfl

end Stage

/-! ## Alternating turns -/

/-- What a job becomes as its run and the tasks take turns, while anything may happen to the session
in between. -/
inductive Job.Becomes (j : Job) : Execution → Session → Prop where
  | requested (s : Session) : Becomes j (.requested j) s
  | ownTurn {e e' : Execution} {s s' : Session} (h : Becomes j e s)
      (hturn : e.ownTurn s = (.waiting e', s')) : Becomes j e' s'
  | taskTurn {e : Execution} {s : Session} (timer : Option Timer) (h : Becomes j e s) :
      Becomes j (e.taskTurn timer s).1 (e.taskTurn timer s).2
  | meanwhile {e : Execution} {s : Session} (s' : Session) (h : Becomes j e s) : Becomes j e s'

/-- The stages that moves lead to once the job has been set up. -/
def Job.Moved (j : Job) (g : Stage) : Prop :=
  ∃ s r s' moves, j.begin s = (.waiting r, s') ∧ (Stage.opening r s').through moves = g

theorem Job.Moved.through {j : Job} {g : Stage} (h : j.Moved g) (moves : List Move) :
    j.Moved (g.through moves) := by
  obtain ⟨s, r, s', before, hbegin, rfl⟩ := h
  exact ⟨s, r, s', before ++ moves, hbegin, Stage.through_append ..⟩

theorem Job.Moved.exists_result {j : Job} {g : Stage} (h : j.Moved g) :
    ∃ s schedule n, j.result? s schedule n = g.result? := by
  obtain ⟨s, r, s', moves, hbegin, rfl⟩ := h
  refine ⟨s, fun n => moves.getD n .round, moves.length, ?_⟩
  rw [Job.result?, hbegin, ← Stage.along_getD]

theorem Stage.progress_eq_waiting {g : Stage} {r : Run} {s : Session}
    (h : g.progress = (.waiting r, s)) : g.verdict = .goesOn ∧ g.run = r ∧ g.session = s := by
  unfold Stage.progress at h
  cases hresult : g.result? with
  | none =>
      rw [hresult] at h
      simp only [Prod.mk.injEq, Progress.waiting.injEq] at h
      exact ⟨g.result?_eq_none_iff.mp hresult, h⟩
  | some result => simp [hresult] at h

theorem Stage.progress_eq_ended {g : Stage} {result : RunResult} {s : Session}
    (h : g.progress = (.ended result, s)) : g.result? = some result ∧ g.session = s := by
  unfold Stage.progress at h
  cases hresult : g.result? with
  | none => simp [hresult] at h
  | some result' =>
      rw [hresult] at h
      simpa using h

theorem Execution.continuing_eq_waiting {p : Progress Run RunResult × Session} {e : Execution}
    {s : Session} (h : continuing p = (.waiting e, s)) :
    ∃ r, p = (.waiting r, s) ∧ e = .underway r := by
  obtain ⟨p, s'⟩ := p
  cases p with
  | ended result => simp [continuing] at h
  | waiting r =>
      simp only [continuing, Prod.mk.injEq, Progress.waiting.injEq] at h
      exact ⟨r, by rw [h.2], h.1.symm⟩

theorem Execution.continuing_eq_ended {p : Progress Run RunResult × Session} {result : RunResult}
    {s : Session} (h : continuing p = (.ended result, s)) : p = (.ended result, s) := by
  obtain ⟨p, s'⟩ := p
  cases p with
  | ended result' => simpa [continuing] using h
  | waiting r => simp [continuing] at h

/-! ## Stages between turns -/

/-- The stages that turns lead to once the job has been set up. They have a history, which what the
job becomes by turns does not have. -/
inductive Job.Turned (j : Job) : Stage → Prop where
  | opening {s s' : Session} {r : Run} (hbegin : j.begin s = (.waiting r, s')) :
      Turned j (.opening r s')
  | ownTurn {g : Stage} (h : Turned j g) (hgoes : g.verdict = .goesOn) :
      Turned j (g.through (replicate (g.run.ended.length + 1) .round))
  | taskTurn {g : Stage} (timer : Option Timer) (h : Turned j g) (hgoes : g.verdict = .goesOn) :
      Turned j { g with run := (g.run.taskTurn timer g.session).1
                        session := (g.run.taskTurn timer g.session).2 }
  | meanwhile {g : Stage} (s : Session) (h : Turned j g) (hgoes : g.verdict = .goesOn) :
      Turned j { g with session := s }

namespace Job.Turned

variable {j : Job} {g : Stage}

/-- What turns lead to, moves lead to. -/
theorem moved (h : j.Turned g) : j.Moved g := by
  induction h with
  | @opening s s' r hbegin => exact ⟨s, r, s', [], hbegin, rfl⟩
  | ownTurn _ _ ih => exact ih.through _
  | taskTurn timer _ hgoes ih =>
      obtain ⟨positions, hpositions⟩ := Stage.exists_taskTurn_eq hgoes timer
      rw [← hpositions]
      exact ih.through _
  | meanwhile s _ hgoes ih =>
      have hthrough := ih.through [.meanwhile fun _ => s]
      simpa [Stage.through, Stage.after, hgoes] using hthrough

theorem ownTurn_eq_waiting (h : j.Turned g) (hgoes : g.verdict = .goesOn) {r : Run} {s : Session}
    (hturn : g.run.ownTurn g.session = (.waiting r, s)) :
    ∃ g', j.Turned g' ∧ g'.verdict = .goesOn ∧ g'.run = r ∧ g'.session = s := by
  rw [Stage.ownTurn_eq_progress hgoes] at hturn
  exact ⟨_, h.ownTurn hgoes, Stage.progress_eq_waiting hturn⟩

theorem ownTurn_eq_ended (h : j.Turned g) (hgoes : g.verdict = .goesOn) {result : RunResult}
    {s : Session} (hturn : g.run.ownTurn g.session = (.ended result, s)) :
    ∃ g', j.Turned g' ∧ g'.result? = some result := by
  rw [Stage.ownTurn_eq_progress hgoes] at hturn
  exact ⟨_, h.ownTurn hgoes, (Stage.progress_eq_ended hturn).1⟩

end Job.Turned

namespace Job.Becomes

variable {j : Job} {e : Execution} {s s' : Session} {result : RunResult}

/-- What a job becomes by turns is the run of a stage that turns lead to. -/
theorem turned (h : j.Becomes e s) : e = .requested j ∨
    ∃ g, j.Turned g ∧ g.verdict = .goesOn ∧ e = .underway g.run ∧ g.session = s := by
  induction h with
  | requested s => exact .inl rfl
  | ownTurn h hturn ih =>
      right
      obtain rfl | ⟨g, hg, hgoes, rfl, rfl⟩ := ih
      · rw [Execution.ownTurn] at hturn
        split at hturn
        · cases hturn
        · rename_i r s' hbegin
          obtain ⟨r', hr', rfl⟩ := Execution.continuing_eq_waiting hturn
          obtain ⟨g', hg', hgoes', rfl, rfl⟩ := (Turned.opening hbegin).ownTurn_eq_waiting rfl hr'
          exact ⟨g', hg', hgoes', rfl, rfl⟩
      · obtain ⟨r', hr', rfl⟩ := Execution.continuing_eq_waiting hturn
        obtain ⟨g', hg', hgoes', rfl, rfl⟩ := hg.ownTurn_eq_waiting hgoes hr'
        exact ⟨g', hg', hgoes', rfl, rfl⟩
  | taskTurn timer h ih =>
      obtain rfl | ⟨g, hg, hgoes, rfl, rfl⟩ := ih
      · exact .inl rfl
      · exact .inr ⟨_, hg.taskTurn timer hgoes, hgoes, rfl, rfl⟩
  | meanwhile s' h ih =>
      obtain rfl | ⟨g, hg, hgoes, rfl, rfl⟩ := ih
      · exact .inl rfl
      · exact .inr ⟨_, hg.meanwhile s' hgoes, hgoes, rfl, rfl⟩

/-- A result that turns come to is that of the set-up, or of a stage that turns lead to. -/
theorem turned_result (h : j.Becomes e s) (hturn : e.ownTurn s = (.ended result, s')) :
    j.begin s = (.ended result, s') ∨ ∃ g, j.Turned g ∧ g.result? = some result := by
  obtain rfl | ⟨g, hg, hgoes, rfl, rfl⟩ := h.turned
  · rw [Execution.ownTurn] at hturn
    split at hturn
    · rename_i hbegin
      simp only [Prod.mk.injEq, Progress.ended.injEq] at hturn
      obtain ⟨rfl, rfl⟩ := hturn
      exact .inl hbegin
    · rename_i hbegin
      exact .inr ((Turned.opening hbegin).ownTurn_eq_ended rfl
        (Execution.continuing_eq_ended hturn))
  · exact .inr (hg.ownTurn_eq_ended hgoes (Execution.continuing_eq_ended hturn))

end Job.Becomes

/-- A run that goes on, in some session, is one that moves lead to. -/
def Job.Underway (j : Job) (r : Run) (s : Session) : Prop :=
  ∃ g, j.Moved g ∧ g.verdict = .goesOn ∧ g.run = r ∧ g.session = s

theorem Job.Becomes.underway {j : Job} {e : Execution} {s : Session} (h : j.Becomes e s) :
    e = .requested j ∨ ∃ r, e = .underway r ∧ j.Underway r s := by
  obtain rfl | ⟨g, hg, hgoes, rfl, rfl⟩ := h.turned
  · exact .inl rfl
  · exact .inr ⟨g.run, rfl, g, hg.moved, hgoes, rfl, rfl⟩

/-- Whatever result turns come to, some schedule of moves comes to it. -/
theorem Job.Becomes.exists_result {j : Job} {e : Execution} {s s' : Session} {result : RunResult}
    (h : j.Becomes e s) (hturn : e.ownTurn s = (.ended result, s')) :
    ∃ s schedule n, j.result? s schedule n = some result := by
  obtain hbegin | ⟨g, hg, hresult⟩ := h.turned_result hturn
  · refine ⟨s, fun _ => .round, 0, ?_⟩
    rw [Job.result?, hbegin]
  · rw [← hresult]
    exact hg.moved.exists_result

end Orchestration
