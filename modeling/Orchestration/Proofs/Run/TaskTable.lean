import Orchestration.Proofs.Run.Accounts

/-! # Runs that know their tasks by number

A task set hands out numbers and, when a task has ended, tells its number and its ending, but not
its node. A run that keeps a table of the nodes in flight by number finds every number it is told,
and goes through the same stages as one whose tasks carry their nodes. Of the numbers it is only
assumed that a new one is not in use. -/

namespace Orchestration

open List

namespace Entries

variable {κ α : Type} [BEq κ] [LawfulBEq κ]

def erase (key : κ) (entries : Entries κ α) : Entries κ α := entries.filter fun e => !(e.1 == key)

theorem lookup_erase (key k : κ) (entries : Entries κ α) :
    (entries.erase key).lookup k = if k == key then none else entries.lookup k := by
  induction entries with
  | nil => simp [erase]
  | cons e rest ih =>
      obtain ⟨key', v⟩ := e
      rw [erase, filter_cons, lookup_cons]
      cases hkey : key' == key with
      | true =>
          obtain rfl : key' = key := eq_of_beq hkey
          rw [erase] at ih
          cases hk : k == key' <;> simp [hk, ih]
      | false =>
          rw [erase] at ih
          cases hk : k == key' with
          | true =>
              obtain rfl : k = key' := eq_of_beq hk
              simp [hkey]
          | false => simpa [lookup_cons, hk] using ih

theorem keys_erase (key : κ) (entries : Entries κ α) (h : entries.keys.Nodup) :
    (entries.erase key).keys = entries.keys.erase key := by
  rw [h.erase_eq_filter, erase, keys, keys, filter_map]
  rfl

end Entries

/-- Something that belongs to a task with a number, and the kind of the task's output. -/
structure Numbered (F : Kind → Type) where
  number : Nat
  kind : Kind
  content : F kind

/-- A run with a task set and a table of the nodes in flight. -/
structure TableRun where
  job : Job
  scope : Context
  ready : List (Node × Value)
  /-- What is left of the tasks that still work. -/
  working : List (Numbered fun κ => Call (Datum κ))
  /-- How those ended that were not joined yet. -/
  joinable : List (Numbered fun κ => Ending (Datum κ))
  /-- How many tasks were spawned so far. -/
  spawned : Nat
  inFlight : Entries Nat Node
  outputs : NodeValues
  verdict : Verdict
  session : Session

/-- How a task set chooses the number of its next task: from how many it has spawned before, and the
numbers of those that were not joined yet. -/
abbrev Numbering := Nat → List Nat → Nat

namespace TableRun

/-- A run that has just been set up. -/
def opening (r : Run) (s : Session) : TableRun where
  job := r.job
  scope := r.scope
  ready := r.ready
  working := []
  joinable := []
  spawned := 0
  inFlight := []
  outputs := r.outputs
  verdict := .goesOn
  session := s

/-- The numbers of the tasks that were not joined yet. -/
def unjoined (b : TableRun) : List Nat := b.working.map (·.number) ++ b.joinable.map (·.number)

/-- Spawns a task for a node and enters the node under the task's number. -/
def spawn (b : TableRun) (number : Numbering) (n : Node) (v : Value)
    (ready : List (Node × Value)) : TableRun :=
  let k := number b.spawned b.unjoined
  let (c, s) := b.session.derive b.scope
  { b with
    ready
    working := b.working ++ [⟨k, n.output, n.call v (c.atNode n.id)⟩]
    spawned := b.spawned + 1
    inFlight := b.inFlight.set k n
    session := s }

/-- Spawns tasks for ready nodes while the task set has room. -/
def launch (number : Numbering) : List (Node × Value) → TableRun → TableRun
  | [], b => b
  | (n, v) :: ready, b =>
    if b.job.hasRoom (b.joinable.length + b.working.length) then
      launch number ready (b.spawn number n v ready)
    else b

/-- Records an output and makes the node's consumers ready for it. -/
def complete (b : TableRun) (n : Node) (output : Value) : TableRun :=
  { b with
    ready := b.ready ++ (b.job.plan.consumers n.id).map (·, output)
    outputs := b.outputs.insert n.id output }

/-- Joins the task that ended first. A number that is not in the table is passed over. -/
def join (b : TableRun) : TableRun :=
  match b.joinable with
  | [] => if b.working.isEmpty then { b with verdict := .succeeded } else b
  | e :: rest =>
    let b := { b with joinable := rest }
    match b.inFlight.lookup e.number with
    | none => b
    | some n =>
      let b := { b with inFlight := b.inFlight.erase e.number }
      match n.resultOf e.content with
      | .ok output => b.complete n output
      | .error f => { b with verdict := .failed n f }

/-- Drops what is in flight if the run is over. -/
def settle (b : TableRun) : TableRun :=
  match b.verdict with
  | .goesOn => b
  | _ =>
    { b with session := (b.working.foldl (fun s t => t.content.drop s) b.session).cancel b.scope }

/-- One round of the loop. -/
def round (b : TableRun) (number : Numbering) : TableRun :=
  let b := launch number b.ready b
  if b.session.isCancelled b.scope then { b with verdict := .cancelled }.settle
  else b.join.settle

/-- Polls one task that still works. -/
def poll (b : TableRun) (position : Nat) : TableRun :=
  match b.working[position]? with
  | none => b
  | some t =>
    match t.content.poll b.session with
    | (.ended ending, s) =>
      { b with
        working := b.working.eraseIdx position
        joinable := b.joinable ++ [⟨t.number, t.kind, ending⟩]
        session := s }
    | (.waiting call, s) =>
      { b with
        working := b.working.set position ⟨t.number, t.kind, call⟩
        session := s }

/-- A move of a run that goes on; a run that is over stays as it is. -/
def after (b : TableRun) (number : Numbering) (m : Move) : TableRun :=
  match b.verdict, m with
  | .goesOn, .round => b.round number
  | .goesOn, .poll position => b.poll position
  | .goesOn, .meanwhile change => { b with session := change b.session }
  | _, _ => b

/-- The states along a schedule. -/
def along (b : TableRun) (number : Numbering) (schedule : Nat → Move) : Nat → TableRun
  | 0 => b
  | n + 1 => (b.along number schedule n).after number (schedule n)

theorem join_of_nil {b : TableRun} (hjoinable : b.joinable = []) :
    b.join = if b.working.isEmpty then { b with verdict := .succeeded } else b := by
  obtain ⟨⟩ := b
  obtain rfl := hjoinable
  rfl

theorem join_of_lookup {b : TableRun} {u : Numbered fun κ => Ending (Datum κ)}
    {rest : List (Numbered fun κ => Ending (Datum κ))} {n : Node}
    (hjoinable : b.joinable = u :: rest) (hlookup : b.inFlight.lookup u.number = some n) :
    b.join =
      let b' := { b with joinable := rest, inFlight := b.inFlight.erase u.number }
      match n.resultOf u.content with
      | .ok output => b'.complete n output
      | .error f => { b' with verdict := .failed n f } := by
  unfold join
  rw [hjoinable]
  dsimp only
  rw [hlookup]

theorem unjoined_wait {b : TableRun} {i : Nat} {u : Numbered fun κ => Call (Datum κ)}
    (hu : b.working[i]? = some u) (call : Call (Datum u.kind)) (s : Session) :
    unjoined { b with working := b.working.set i ⟨u.number, u.kind, call⟩, session := s } =
      b.unjoined := by
  simp only [unjoined]
  rw [map_set_of_eq (·.number) ⟨u.number, u.kind, call⟩ hu rfl]

theorem unjoined_finish {b : TableRun} {i : Nat} {u : Numbered fun κ => Call (Datum κ)}
    (hu : b.working[i]? = some u) (ending : Ending (Datum u.kind)) (s : Session) :
    (unjoined { b with
      working := b.working.eraseIdx i
      joinable := b.joinable ++ [⟨u.number, u.kind, ending⟩]
      session := s }).Perm b.unjoined := by
  have hworking := (cons_eraseIdx_perm hu).map (·.number)
  rw [perm_iff_count] at hworking ⊢
  intro k
  have hcount := hworking k
  simp only [unjoined, map_append, count_append, map_cons, map_nil, count_cons,
    count_nil] at hcount ⊢
  omega

/-! ## The table is in step with the task set -/

/-- What has the number belongs to that node, and the table has the node under the number. -/
def Holds {F : Kind → Type} (inFlight : Entries Nat Node) (u : Numbered F) (n : Node)
    (content : F n.output) : Prop :=
  u = ⟨u.number, n.output, content⟩ ∧ inFlight.lookup u.number = some n

/-- The run with the table is where the other run is, the table has exactly the numbers of the tasks
that were not joined yet, each once, and under each the node of its task. -/
structure Tracks (b : TableRun) (g : Stage) : Prop where
  job : b.job = g.run.job
  scope : b.scope = g.run.scope
  ready : b.ready = g.run.ready
  outputs : b.outputs = g.run.outputs
  verdict : b.verdict = g.verdict
  session : b.session = g.session
  numbers : b.inFlight.keys.Perm b.unjoined
  distinct : b.unjoined.Nodup
  working : Forall₂ (fun u t => Holds b.inFlight u t.node t.call) b.working g.run.tasks
  joinable : Forall₂ (fun u e => Holds b.inFlight u e.node e.ending) b.joinable g.run.ended

variable {b : TableRun} {g : Stage} {number : Numbering}

/-- What holds of the lists position by position still does after the same change to both. -/
theorem forall₂_at {α β : Type} {R : α → β → Prop} {xs : List α} {ys : List β}
    (h : Forall₂ R xs ys) (i : Nat) : (xs[i]? = none ∧ ys[i]? = none) ∨
      ∃ x y, xs[i]? = some x ∧ ys[i]? = some y ∧ R x y ∧
        (∀ x' y', R x' y' → Forall₂ R (xs.set i x') (ys.set i y')) ∧
        Forall₂ R (xs.eraseIdx i) (ys.eraseIdx i) := by
  induction h generalizing i with
  | nil => simp
  | @cons x y xs ys hxy hrest ih =>
      cases i with
      | zero =>
          exact .inr ⟨x, y, rfl, rfl, hxy, fun x' y' h' => .cons h' hrest, hrest⟩
      | succ i =>
          rcases ih i with hnone | ⟨x', y', hx, hy, hxy', hset, herase⟩
          · exact .inl (by simpa using hnone)
          · refine .inr ⟨x', y', by simpa using hx, by simpa using hy, hxy', ?_, ?_⟩
            · exact fun x'' y'' h'' => .cons hxy (hset x'' y'' h'')
            · exact .cons hxy herase

/-- A change of the table that keeps the entries of some numbers keeps what they stand for. -/
theorem Holds.of_lookup_eq {F : Kind → Type} {τ : Type} {node : τ → Node}
    {content : (t : τ) → F (node t).output} {inFlight table : Entries Nat Node}
    {us : List (Numbered F)} {ts : List τ}
    (h : Forall₂ (fun u t => Holds inFlight u (node t) (content t)) us ts)
    (hsame : ∀ u ∈ us, table.lookup u.number = inFlight.lookup u.number) :
    Forall₂ (fun u t => Holds table u (node t) (content t)) us ts := by
  refine ((forall₂_and_left us ts).mpr ⟨hsame, h⟩).imp ?_
  intro u t ⟨hu, hcontent, hlookup⟩
  exact ⟨hcontent, hu.trans hlookup⟩

namespace Tracks

theorem spawn (h : b.Tracks g) (hnumber : number b.spawned b.unjoined ∉ b.unjoined) (n : Node)
    (v : Value) (ready : List (Node × Value)) :
    (b.spawn number n v ready).Tracks (g.startNext n v ready) := by
  have hkeys : number b.spawned b.unjoined ∉ b.inFlight.keys := fun hmem =>
    hnumber (h.numbers.mem_iff.mp hmem)
  have hsame : ∀ k ∈ b.unjoined, (b.inFlight.set (number b.spawned b.unjoined) n).lookup k =
      b.inFlight.lookup k := by
    intro k hk
    rw [Entries.lookup_set, if_neg]
    rw [beq_iff_eq]
    rintro rfl
    exact hnumber hk
  have hworking : ∀ u ∈ b.working, u.number ∈ b.unjoined :=
    fun u hu => mem_append_left _ (mem_map_of_mem hu)
  have hjoinable : ∀ u ∈ b.joinable, u.number ∈ b.unjoined :=
    fun u hu => mem_append_right _ (mem_map_of_mem hu)
  have hperm : (b.spawn number n v ready).unjoined.Perm
      (b.unjoined ++ [number b.spawned b.unjoined]) := by
    rw [perm_iff_count]
    intro k
    simp only [TableRun.spawn, unjoined, map_append, count_append, map_cons, map_nil]
    omega
  constructor
  case job => exact h.job
  case scope => exact h.scope
  case ready => rfl
  case outputs => exact h.outputs
  case verdict => exact h.verdict
  case session => simp only [TableRun.spawn, Stage.startNext, h.session, h.scope]
  case numbers =>
    refine Perm.trans ?_ hperm.symm
    simp only [TableRun.spawn]
    rw [Entries.keys_set_of_notMem _ _ _ hkeys]
    exact h.numbers.append_right _
  case distinct =>
    rw [hperm.nodup_iff]
    refine nodup_append.mpr ⟨h.distinct, nodup_singleton _, ?_⟩
    simpa using fun k hk => ne_of_mem_of_not_mem hk hnumber
  case working =>
    refine rel_append ?_ (.cons ?_ .nil)
    · exact Holds.of_lookup_eq h.working fun u hu => hsame _ (hworking u hu)
    · refine ⟨?_, by simp [TableRun.spawn, Entries.lookup_set]⟩
      rw [← h.session, ← h.scope]
      rfl
  case joinable => exact Holds.of_lookup_eq h.joinable fun u hu => hsame _ (hjoinable u hu)

theorem launch (hnumber : ∀ spawned used, number spawned used ∉ used)
    (ready : List (Node × Value)) (h : b.Tracks g) (hready : g.run.ready = ready) :
    (launch number ready b).Tracks g.launch := by
  have hroom : b.job.hasRoom (b.joinable.length + b.working.length) =
      g.run.job.hasRoom (g.run.ended.length + g.run.tasks.length) := by
    rw [h.job, h.working.length_eq, h.joinable.length_eq]
  induction ready generalizing b g with
  | nil => rwa [Stage.launch_of_ready_nil hready]
  | cons e ready ih =>
      obtain ⟨n, v⟩ := e
      rw [TableRun.launch, hroom]
      split
      · rename_i hyes
        rw [Stage.launch_of_hasRoom hready hyes]
        have hspawn := h.spawn (hnumber _ _) n v ready
        refine ih hspawn rfl ?_
        rw [hspawn.job, hspawn.working.length_eq, hspawn.joinable.length_eq]
      · rename_i hno
        rwa [Stage.launch_of_not_hasRoom (by simpa using hno)]

theorem withVerdict (h : b.Tracks g) (verdict : Verdict) {s s' : Session} (hs : s = s')
    (log : List Happening) :
    Tracks { b with verdict, session := s } { g with verdict, session := s', log } :=
  ⟨h.job, h.scope, h.ready, h.outputs, rfl, hs, h.numbers, h.distinct, h.working, h.joinable⟩

theorem foldl_drop_eq {inFlight : Entries Nat Node} {us : List (Numbered fun κ => Call (Datum κ))}
    {ts : List Task} (h : Forall₂ (fun u t => Holds inFlight u t.node t.call) us ts) (s : Session) :
    us.foldl (fun s u => u.content.drop s) s = ts.foldl (fun s t => t.call.drop s) s := by
  induction h generalizing s with
  | nil => rfl
  | @cons u t us ts hut hrest ih =>
      rw [foldl_cons, foldl_cons, ih, hut.1]

theorem settle (h : b.Tracks g) : b.settle.Tracks g.settle := by
  have hhalt : (b.working.foldl (fun s t => t.content.drop s) b.session).cancel b.scope =
      g.run.halt g.session := by
    rw [foldl_drop_eq h.working, h.session, h.scope]
    rfl
  simp only [TableRun.settle, Stage.settle, h.verdict, hhalt]
  cases hverdict : g.verdict with
  | goesOn => exact h
  | succeeded => exact h.withVerdict .succeeded rfl _
  | failed n f => exact h.withVerdict (.failed n f) rfl _
  | cancelled => exact h.withVerdict .cancelled rfl _

/-- Joining a task takes its number out of the table and out of use. -/
theorem remove (h : b.Tracks g) {u : Numbered fun κ => Ending (Datum κ)}
    {rest : List (Numbered fun κ => Ending (Datum κ))} {e : EndedTask} {rest' : List EndedTask}
    (hjoinable : b.joinable = u :: rest) (hended : g.run.ended = e :: rest') :
    Tracks { b with joinable := rest, inFlight := b.inFlight.erase u.number }
      { g with run := { g.run with ended := rest' } } := by
  have hdistinct := h.distinct
  have hnumbers := h.numbers.erase u.number
  rw [← Entries.keys_erase _ _ (h.numbers.nodup_iff.mpr hdistinct)] at hnumbers
  rw [unjoined, hjoinable, map_cons] at hdistinct hnumbers
  obtain ⟨hfresh, hrest⟩ := nodup_cons.mp (perm_middle.nodup_iff.mp hdistinct)
  rw [mem_append, not_or] at hfresh
  have hsame : ∀ k, k ∈ b.working.map (·.number) ++ rest.map (·.number) →
      (b.inFlight.erase u.number).lookup k = b.inFlight.lookup k := by
    intro k hk
    rw [Entries.lookup_erase, if_neg]
    rw [beq_iff_eq]
    rintro rfl
    exact (mem_append.mp hk).elim hfresh.1 hfresh.2
  have hrests := h.joinable
  rw [hjoinable, hended] at hrests
  constructor
  case job => exact h.job
  case scope => exact h.scope
  case ready => exact h.ready
  case outputs => exact h.outputs
  case verdict => exact h.verdict
  case session => exact h.session
  case numbers => rwa [erase_append_right _ hfresh.1, erase_cons_head] at hnumbers
  case distinct => exact hrest
  case working =>
    exact Holds.of_lookup_eq h.working fun v hv => hsame _ (mem_append_left _ (mem_map_of_mem hv))
  case joinable =>
    exact Holds.of_lookup_eq (forall₂_cons.mp hrests).2
      fun v hv => hsame _ (mem_append_right _ (mem_map_of_mem hv))

theorem complete (h : b.Tracks g) (n : Node) (output : Value) (log : List Happening) :
    (b.complete n output).Tracks { g with run := g.run.complete n output, log } := by
  refine ⟨h.job, h.scope, ?_, ?_, h.verdict, h.session, h.numbers, h.distinct, h.working,
    h.joinable⟩
  · simp only [TableRun.complete, h.ready, h.job]
    rfl
  · simp only [TableRun.complete, h.outputs]
    rfl

theorem join (h : b.Tracks g) : b.join.Tracks g.observe := by
  have hjoinable := h.joinable
  cases hj : b.joinable with
  | nil =>
      rw [hj, forall₂_nil_left_iff] at hjoinable
      have hempty : b.working.isEmpty = g.run.tasks.isEmpty := by
        rw [Bool.eq_iff_iff, isEmpty_iff_length_eq_zero, isEmpty_iff_length_eq_zero,
          h.working.length_eq]
      rw [join_of_nil hj, Stage.observe_of_nil hjoinable, hempty]
      split
      · exact h.withVerdict .succeeded h.session _
      · exact h
  | cons u rest =>
      rw [hj] at hjoinable
      obtain ⟨e, rest', ⟨hu, hlookup⟩, hrest, hended⟩ := forall₂_cons_left_iff.mp hjoinable
      have hremoved := h.remove hj hended
      have hsame : e.node.resultOf u.content = e.result := by
        rw [hu]
        rfl
      rw [join_of_lookup hj hlookup, hsame]
      cases hresult : e.result with
      | ok output =>
          rw [Stage.observe_of_ok hended hresult]
          exact hremoved.complete e.node output _
      | error f =>
          rw [Stage.observe_of_error hended hresult]
          exact hremoved.withVerdict (.failed e.node f) h.session _

theorem poll (h : b.Tracks g) (i : Nat) : (b.poll i).Tracks (g.poll i) := by
  unfold TableRun.poll Stage.poll
  rcases forall₂_at h.working i with ⟨hu, ht⟩ | ⟨u, t, hu, ht, ⟨hcall, hlookup⟩, hset, herase⟩
  · rw [hu, ht]
    exact h
  · obtain ⟨k, κ, content⟩ := u
    obtain ⟨-, rfl, hcontent⟩ := Numbered.mk.inj hcall
    obtain rfl := eq_of_heq hcontent
    rw [hu, ht]
    dsimp only
    rw [h.session]
    cases hpoll : t.call.poll g.session with
    | mk state s =>
        cases state with
        | ended ending =>
            have hperm := unjoined_finish hu ending s
            exact ⟨h.job, h.scope, h.ready, h.outputs, h.verdict, rfl, h.numbers.trans hperm.symm,
              hperm.nodup_iff.mpr h.distinct, herase,
              rel_append h.joinable (.cons ⟨rfl, hlookup⟩ .nil)⟩
        | waiting call =>
            have hsame := unjoined_wait hu call s
            exact ⟨h.job, h.scope, h.ready, h.outputs, h.verdict, rfl, hsame.symm ▸ h.numbers,
              hsame.symm ▸ h.distinct, hset _ _ ⟨rfl, hlookup⟩, h.joinable⟩

theorem round (hnumber : ∀ spawned used, number spawned used ∉ used) (h : b.Tracks g) :
    (b.round number).Tracks g.round := by
  have hlaunch := h.launch hnumber b.ready h.ready.symm
  have hcancelled : (TableRun.launch number b.ready b).session.isCancelled
      (TableRun.launch number b.ready b).scope =
      g.launch.session.isCancelled g.launch.run.scope := by
    rw [hlaunch.session, hlaunch.scope]
  simp only [TableRun.round, Stage.round, hcancelled]
  split
  · exact (hlaunch.withVerdict .cancelled hlaunch.session _).settle
  · exact hlaunch.join.settle

theorem after (hnumber : ∀ spawned used, number spawned used ∉ used) (h : b.Tracks g) (m : Move) :
    (b.after number m).Tracks (g.after m) := by
  by_cases hgoes : g.verdict = .goesOn
  · have hgoes' : b.verdict = .goesOn := h.verdict.trans hgoes
    cases m with
    | round => simpa only [TableRun.after, Stage.after, hgoes, hgoes'] using h.round hnumber
    | poll i => simpa only [TableRun.after, Stage.after, hgoes, hgoes'] using h.poll i
    | meanwhile change =>
        simp only [TableRun.after, Stage.after, hgoes, hgoes', h.session]
        exact h.withVerdict .goesOn rfl _
  · have hover : b.after number m = b := by
      unfold TableRun.after
      rw [h.verdict]
      split <;> simp_all
    rwa [Stage.after_of_over hgoes, hover]

theorem along (hnumber : ∀ spawned used, number spawned used ∉ used) (h : b.Tracks g)
    (schedule : Nat → Move) (n : Nat) :
    (b.along number schedule n).Tracks (g.along schedule n) := by
  induction n with
  | zero => exact h
  | succ n ih => exact ih.after hnumber (schedule n)

end Tracks

end TableRun

end Orchestration
