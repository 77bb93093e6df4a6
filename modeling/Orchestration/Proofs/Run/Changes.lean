import Mathlib.Data.List.Perm.Basic
import Orchestration.Proofs.Call.Effects
import Orchestration.Proofs.Run.Stages

/-! # What a move can do

Every move is a sequence of single changes, and each kind of change says all that it does and when
it is possible. What holds of a fresh run and survives every change holds at all times. -/

namespace Orchestration

open List Relation

/-! ## Positions in a list -/

theorem cons_eraseIdx_perm {α : Type} {xs : List α} {i : Nat} {x : α} (hx : xs[i]? = some x) :
    (x :: xs.eraseIdx i).Perm xs := by
  obtain ⟨hi, rfl⟩ := List.getElem?_eq_some_iff.mp hx
  exact getElem_cons_eraseIdx_perm hi

/-- A replacement that a function does not tell from what stood there. -/
theorem map_set_of_eq {α β : Type} (f : α → β) {xs : List α} {i : Nat} {x : α}
    (y : α) (hx : xs[i]? = some x) (hxy : f y = f x) : (xs.set i y).map f = xs.map f := by
  obtain ⟨hi, rfl⟩ := List.getElem?_eq_some_iff.mp hx
  have hi' : i < (xs.map f).length := by simpa using hi
  have hsame : (xs.map f)[i] = f y := by rw [hxy, getElem_map]
  rw [map_set]
  exact hsame ▸ set_getElem_self hi'

namespace Stage

/-- The stage in which the first ready node has been started. -/
def startNext (g : Stage) (n : Node) (v : Value) (ready : List (Node × Value)) : Stage :=
  { g with
    run := { g.run with
      ready
      tasks := g.run.tasks ++ [⟨n, n.call v ((g.session.derive g.run.scope).1.atNode n.id)⟩] }
    session := (g.session.derive g.run.scope).2
    log := g.log ++ [.started n.id v] }

/-- A single change of a stage. -/
inductive Change : Stage → Stage → Prop where
  | meanwhile (g : Stage) (s : Session) : Change g { g with session := s }
  | start {g : Stage} {n : Node} {v : Value} {ready : List (Node × Value)}
      (hgoes : g.verdict = .goesOn) (hready : g.run.ready = (n, v) :: ready)
      (hroom : g.run.job.hasRoom (g.run.ended.length + g.run.tasks.length)) :
      Change g (g.startNext n v ready)
  | wait {g : Stage} {i : Nat} {t : Task} {call : Call (Datum t.node.output)} {s : Session}
      (hgoes : g.verdict = .goesOn) (ht : g.run.tasks[i]? = some t)
      (hpoll : t.call.poll g.session = (.waiting call, s)) :
      Change g { g with
        run := { g.run with tasks := g.run.tasks.set i ⟨t.node, call⟩ }
        session := s }
  | finish {g : Stage} {i : Nat} {t : Task} {ending : Ending (Datum t.node.output)} {s : Session}
      (hgoes : g.verdict = .goesOn) (ht : g.run.tasks[i]? = some t)
      (hpoll : t.call.poll g.session = (.ended ending, s)) :
      Change g { g with
        run := { g.run with
          tasks := g.run.tasks.eraseIdx i
          ended := g.run.ended ++ [⟨t.node, ending⟩] }
        session := s }
  | complete {g : Stage} {e : EndedTask} {rest : List EndedTask} {output : Value}
      (hgoes : g.verdict = .goesOn) (hended : g.run.ended = e :: rest)
      (hresult : e.result = .ok output) :
      Change g { g with
        run := { g.run with ended := rest }.complete e.node output
        log := g.log ++ g.run.job.plan.completion e.node output }
  | fail {g : Stage} {e : EndedTask} {rest : List EndedTask} {f : Failure}
      (hgoes : g.verdict = .goesOn) (hended : g.run.ended = e :: rest)
      (hresult : e.result = .error f) :
      Change g { g with
        run := { g.run with ended := rest }
        verdict := .failed e.node f
        session := { g.run with ended := rest }.halt g.session
        log := g.log ++ [.failed e.node.id f] }
  | succeed {g : Stage} (hgoes : g.verdict = .goesOn) (hready : g.run.ready = [])
      (htasks : g.run.tasks = []) (hended : g.run.ended = []) :
      Change g { g with verdict := .succeeded, session := g.run.halt g.session }
  | cancel {g : Stage} (hgoes : g.verdict = .goesOn)
      (hcancelled : g.session.isCancelled g.run.scope = true) :
      Change g { g with verdict := .cancelled, session := g.run.halt g.session }

/-! ## Starting nodes -/

theorem length_launch_le (job : Job) (scope : Context) (ended : Nat) (ready : List (Node × Value))
    (tasks : List Task) (s : Session) :
    (Run.launch job scope ended ready tasks s).1.1.length ≤ ready.length := by
  induction ready generalizing tasks s with
  | nil => simp [Run.launch]
  | cons e ready ih =>
      rw [Run.launch]
      split
      · exact (ih _ _).trans (Nat.le_succ _)
      · exact Nat.le_refl _

theorem launch_of_ready_nil {g : Stage} (h : g.run.ready = []) : g.launch = g := by
  obtain ⟨⟨job, scope, ready, tasks, ended, outputs⟩, verdict, session, log⟩ := g
  obtain rfl : ready = [] := h
  simp [launch, Run.launch]

theorem launch_of_not_hasRoom {g : Stage}
    (h : g.run.job.hasRoom (g.run.ended.length + g.run.tasks.length) = false) :
    g.launch = g := by
  obtain ⟨⟨job, scope, ready, tasks, ended, outputs⟩, verdict, session, log⟩ := g
  cases ready with
  | nil => exact launch_of_ready_nil rfl
  | cons e ready => simp_all [launch, Run.launch]

theorem launch_of_hasRoom {g : Stage} {n : Node} {v : Value} {ready : List (Node × Value)}
    (hready : g.run.ready = (n, v) :: ready)
    (hroom : g.run.job.hasRoom (g.run.ended.length + g.run.tasks.length) = true) :
    g.launch = (g.startNext n v ready).launch := by
  obtain ⟨⟨job, scope, ready', tasks, ended, outputs⟩, verdict, session, log⟩ := g
  obtain rfl : ready' = (n, v) :: ready := hready
  have hle := length_launch_le job scope ended.length ready
    (tasks ++ [⟨n, n.call v ((session.derive scope).1.atNode n.id)⟩]) (session.derive scope).2
  simp only [launch, startNext, Run.launch, hroom, if_true, length_cons]
  rw [Nat.succ_sub hle, take_succ_cons]
  simp

/-- What holds of a stage and survives the start of a node holds once nodes were started. -/
theorem launch_induction {P : Stage → Prop} {g : Stage} (h : P g)
    (hstart : ∀ (g : Stage) (n : Node) (v : Value) (ready : List (Node × Value)), P g →
      g.run.ready = (n, v) :: ready →
      g.run.job.hasRoom (g.run.ended.length + g.run.tasks.length) = true →
      P (g.startNext n v ready)) : P g.launch := by
  generalize hready : g.run.ready = ready
  induction ready generalizing g with
  | nil => rwa [launch_of_ready_nil hready]
  | cons e ready ih =>
      obtain ⟨n, v⟩ := e
      cases hroom : g.run.job.hasRoom (g.run.ended.length + g.run.tasks.length) with
      | false => rwa [launch_of_not_hasRoom hroom]
      | true =>
          rw [launch_of_hasRoom hready hroom]
          exact ih (hstart g n v ready h hready hroom) rfl

/-- Nodes are started until none is ready or there is no room. -/
theorem launch_exhausts (g : Stage) : g.launch.run.ready = [] ∨
    g.launch.run.job.hasRoom (g.launch.run.ended.length + g.launch.run.tasks.length) = false := by
  generalize hready : g.run.ready = ready
  induction ready generalizing g with
  | nil => exact .inl (by rwa [launch_of_ready_nil hready])
  | cons e ready ih =>
      obtain ⟨n, v⟩ := e
      cases hroom : g.run.job.hasRoom (g.run.ended.length + g.run.tasks.length) with
      | false => exact .inr (by rwa [launch_of_not_hasRoom hroom])
      | true =>
          rw [launch_of_hasRoom hready hroom]
          exact ih (g.startNext n v ready) rfl

theorem hasRoom_zero (j : Job) : j.hasRoom 0 = true := by
  unfold Job.hasRoom
  cases j.maxConcurrency with
  | none => rfl
  | some m => simp

theorem launch_ready_of_idle {g : Stage} (htasks : g.launch.run.tasks = [])
    (hended : g.launch.run.ended = []) : g.launch.run.ready = [] := by
  refine g.launch_exhausts.resolve_right ?_
  rw [htasks, hended]
  simp [hasRoom_zero]

@[simp]
theorem launch_verdict (g : Stage) : g.launch.verdict = g.verdict :=
  launch_induction (P := fun g' => g'.verdict = g.verdict) rfl fun _ _ _ _ h _ _ => h

@[simp]
theorem launch_job (g : Stage) : g.launch.run.job = g.run.job :=
  launch_induction (P := fun g' => g'.run.job = g.run.job) rfl fun _ _ _ _ h _ _ => h

@[simp]
theorem launch_scope (g : Stage) : g.launch.run.scope = g.run.scope :=
  launch_induction (P := fun g' => g'.run.scope = g.run.scope) rfl fun _ _ _ _ h _ _ => h

@[simp]
theorem launch_ended (g : Stage) : g.launch.run.ended = g.run.ended :=
  launch_induction (P := fun g' => g'.run.ended = g.run.ended) rfl fun _ _ _ _ h _ _ => h

@[simp]
theorem launch_outputs (g : Stage) : g.launch.run.outputs = g.run.outputs :=
  launch_induction (P := fun g' => g'.run.outputs = g.run.outputs) rfl fun _ _ _ _ h _ _ => h

/-- Deriving a context cancels nothing. -/
theorem isCancelled_derive (s : Session) (c d : Context) :
    (s.derive c).2.isCancelled d = s.isCancelled d := rfl

@[simp]
theorem launch_isCancelled (g : Stage) (c : Context) :
    g.launch.session.isCancelled c = g.session.isCancelled c :=
  launch_induction (P := fun g' => g'.session.isCancelled c = g.session.isCancelled c) rfl
    fun g' _ _ _ h _ _ => (isCancelled_derive g'.session g'.run.scope c).trans h

/-! ## Moves as sequences of changes -/

/-- A change that takes no time. -/
def ChangeAtOnce (g g' : Stage) : Prop := Change g g' ∧ g'.session.now = g.session.now

theorem changes_of_atOnce {g g' : Stage} (h : ReflTransGen ChangeAtOnce g g') :
    ReflTransGen Change g g' :=
  ReflTransGen.mono (fun _ _ hchange => hchange.1) _ _ h

theorem halt_now (r : Run) (s : Session) : (r.halt s).now = s.now := by
  have hdrops : ∀ (tasks : List Task) (s : Session),
      (tasks.foldl (fun s t => t.call.drop s) s).now = s.now := by
    intro tasks
    induction tasks with
    | nil => exact fun s => rfl
    | cons t tasks ih => exact fun s => (ih _).trans (t.call.drop_now s)
  exact (Session.cancel_now _ _).trans (hdrops r.tasks s)

theorem changesAtOnce_launch {g : Stage} (hgoes : g.verdict = .goesOn) :
    ReflTransGen ChangeAtOnce g g.launch := by
  refine (launch_induction (P := fun g' => g'.verdict = .goesOn ∧ ReflTransGen ChangeAtOnce g g')
    ⟨hgoes, .refl⟩ ?_).2
  intro g' n v ready ⟨hgoes', hsteps⟩ hready hroom
  exact ⟨hgoes', hsteps.tail ⟨.start hgoes' hready hroom, rfl⟩⟩

theorem changes_launch {g : Stage} (hgoes : g.verdict = .goesOn) :
    ReflTransGen Change g g.launch := changes_of_atOnce (changesAtOnce_launch hgoes)

/-- A stage observes at most one ending. -/
theorem changesAtOnce_observe {g : Stage} (hgoes : g.verdict = .goesOn)
    (hidle : g.run.tasks = [] → g.run.ended = [] → g.run.ready = []) :
    ReflTransGen ChangeAtOnce g g.observe.settle := by
  cases hended : g.run.ended with
  | nil =>
      rw [observe_of_nil hended]
      split
      · rename_i htasks
        have htasks := List.isEmpty_iff.mp htasks
        exact .single ⟨.succeed hgoes (hidle htasks hended) htasks hended, halt_now _ _⟩
      · simp [settle, hgoes, ReflTransGen.refl]
  | cons e rest =>
      cases hresult : e.result with
      | ok output =>
          rw [observe_of_ok hended hresult]
          simp only [settle, hgoes]
          exact .single ⟨hgoes ▸ .complete hgoes hended hresult, rfl⟩
      | error f =>
          rw [observe_of_error hended hresult]
          exact .single ⟨.fail hgoes hended hresult, halt_now _ _⟩

theorem changesAtOnce_round {g : Stage} (hgoes : g.verdict = .goesOn) :
    ReflTransGen ChangeAtOnce g g.round := by
  have hlaunch := changesAtOnce_launch hgoes
  simp only [round]
  split
  · rename_i hcancelled
    exact hlaunch.tail ⟨.cancel (by simpa using hgoes) hcancelled, halt_now _ _⟩
  · exact hlaunch.trans (changesAtOnce_observe (by simpa using hgoes) launch_ready_of_idle)

theorem changesAtOnce_poll {g : Stage} (hgoes : g.verdict = .goesOn) (i : Nat) :
    ReflTransGen ChangeAtOnce g (g.poll i) := by
  unfold poll
  split
  · exact .refl
  · rename_i t ht
    have hstill := (t.call.atOnce_poll g.session).still
    split
    · rename_i ending s hpoll
      exact .single ⟨.finish hgoes ht hpoll, by rwa [hpoll] at hstill⟩
    · rename_i call s hpoll
      exact .single ⟨.wait hgoes ht hpoll, by rwa [hpoll] at hstill⟩

theorem changes_after (g : Stage) (m : Move) : ReflTransGen Change g (g.after m) := by
  unfold after
  split
  · exact changes_of_atOnce (changesAtOnce_round ‹_›)
  · exact changes_of_atOnce (changesAtOnce_poll ‹_› _)
  · exact .single (.meanwhile g _)
  · exact .refl

theorem changes_along (g : Stage) (schedule : Nat → Move) (n : Nat) :
    ReflTransGen Change g (g.along schedule n) := by
  induction n with
  | zero => exact .refl
  | succ n ih => exact ih.trans (changes_after _ _)

/-- What survives every change holds at all times. -/
theorem invariant_along {P : Stage → Prop} {g : Stage} (h : P g)
    (hstep : ∀ g g', P g → Change g g' → P g') (schedule : Nat → Move) (n : Nat) :
    P (g.along schedule n) := by
  have hall : ∀ last, ReflTransGen Change g last → P last := by
    intro last hsteps
    induction hsteps with
    | refl => exact h
    | tail _ hchange ih => exact hstep _ _ ih hchange
  exact hall _ (changes_along g schedule n)

end Stage

end Orchestration
