import Orchestration.Proofs.Policy.Containment
import Orchestration.Proofs.Policy.Scope

/-! # Where failures of nests come from

All parts of a nest are executed under contexts of the same node. A failure of the whole is one of
the code at its base, one that stands for a fault, or one of a time limit, which names that node and
the limit; the layers in between change none of these. -/

namespace Orchestration

open Call

variable {ι ω : Kind} {α : Type} {f : Failure}

theorem exists_mayEnd_of_withCopy {κ : Kind} {d : Datum κ} {earlier : Nat}
    {next : Datum κ → Call α} (h : (withCopy d earlier next).MayEnd (.failure f)) :
    ∃ copy, (next copy).MayEnd (.failure f) := by
  unfold withCopy at h
  split at h
  · exact ⟨_, h⟩
  · cases mayEnd_finish h

/-- Where what follows passes on values and faults, a failure comes from one of the work. -/
theorem exists_failure_of_andThen {body : Call α} {next : Ending α → Call α}
    (h : (body.andThen next).MayEnd (.failure f))
    (hvalue : ∀ v, next (.value v) = .finish (.value v))
    (hfault : ∀ fault, next (.fault fault) = .finish (.fault fault)) :
    ∃ f', body.MayEnd (.failure f') ∧ (next (.failure f')).MayEnd (.failure f) := by
  obtain ⟨ending, hbody, hend⟩ := mayEnd_andThen h
  cases ending with
  | value v =>
      rw [hvalue] at hend
      cases mayEnd_finish hend
  | failure f' => exact ⟨f', hbody, hend⟩
  | fault fault =>
      rw [hfault] at hend
      cases mayEnd_finish hend

namespace Agent

variable {a fallback : Agent ι ω} {input : Datum ι} {c : Context}

/-- A failure of an execution is one of the agent's code or stands for a fault. -/
theorem mayEnd_execute {name : String}
    (h : ((a.start input c).andThen (captureFault name)).MayEnd (.failure f)) :
    (a.start input c).MayEnd (.failure f) ∨ ∃ fault, f = .ofFault name fault := by
  obtain ⟨ending, hstart, hend⟩ := mayEnd_andThen h
  cases ending with
  | value v => cases mayEnd_finish hend
  | failure f' =>
      cases mayEnd_finish hend
      exact .inl hstart
  | fault fault =>
      cases mayEnd_finish hend
      exact .inr ⟨fault, rfl⟩

/-- All attempts but the last one are forgotten. -/
theorem mayEnd_attempts {backoff : Backoff} {left failures : Nat}
    (h : (a.attempts backoff input c left failures).MayEnd (.failure f)) :
    ∃ copy, (a.execute copy c).MayEnd (.failure f) := by
  induction left generalizing failures with
  | zero =>
      rw [attempts] at h
      obtain ⟨copy, h⟩ := exists_mayEnd_of_withCopy h
      obtain ⟨f', hattempt, hend⟩ := exists_failure_of_andThen h (fun _ => rfl) fun _ => rfl
      refine ⟨copy, ?_⟩
      dsimp only at hend
      split at hend <;> cases mayEnd_finish hend <;> exact hattempt
  | succ left ih =>
      rw [attempts] at h
      obtain ⟨copy, h⟩ := exists_mayEnd_of_withCopy h
      obtain ⟨f', hattempt, hend⟩ := exists_failure_of_andThen h (fun _ => rfl) fun _ => rfl
      dsimp only at hend
      split at hend
      · obtain ⟨s, hend⟩ := mayEnd_act hend
        split at hend
        · cases mayEnd_finish hend
          exact ⟨copy, hattempt⟩
        · exact ih (mayEnd_sleep hend)
      · cases mayEnd_finish hend
        exact ⟨copy, hattempt⟩

/-- A time limit fails under the node of the context that it was given, or as the agent does under
one derived from it. -/
theorem mayEnd_timingOut {limit : Duration}
    (h : ((a.timingOut limit).start input c).MayEnd (.failure f)) :
    f = .timeout (c.node.getD "") limit ∨
      ∃ s : Session, (a.execute input (s.derive c).1).MayEnd (.failure f) := by
  obtain ⟨s, h⟩ := mayEnd_act h
  obtain ⟨s', h⟩ := mayEnd_act h
  rcases mayEnd_within h with hlate | hbody
  · exact .inl (Ending.failure.inj hlate)
  · exact .inr ⟨s, hbody⟩

/-- What becomes of the stand-in does not show. -/
theorem mayEnd_orElse (h : ((a.orElse fallback).start input c).MayEnd (.failure f)) :
    ∃ copy, (a.execute copy c).MayEnd (.failure f) := by
  obtain ⟨copy, h⟩ := exists_mayEnd_of_withCopy h
  obtain ⟨f', hprimary, hend⟩ := exists_failure_of_andThen h (fun _ => rfl) fun _ => rfl
  refine ⟨copy, ?_⟩
  dsimp only at hend
  split at hend
  · obtain ⟨ending, -, hend⟩ := mayEnd_andThen hend
    cases ending <;> cases mayEnd_finish hend <;> exact hprimary
  · cases mayEnd_finish hend
    exact hprimary

end Agent

namespace Nest

variable {c c' : Context}

/-- When the nest is called under the first context, the part may be called under the second. -/
inductive Reaches : Nest ι ω → Context → Nest ι ω → Context → Prop where
  | self (t : Nest ι ω) (c : Context) : Reaches t c t c
  | renamed {inner part : Nest ι ω} {c c' : Context} (name : String)
      (h : Reaches inner c part c') : Reaches (renamed inner name) c part c'
  | retrying {inner part : Nest ι ω} {c c' : Context} (p : RetryPolicy)
      (h : Reaches inner c part c') : Reaches (retrying inner p) c part c'
  | timingOut {inner part : Nest ι ω} {c c' : Context} (limit : Duration) (s : Session)
      (h : Reaches inner (s.derive c).1 part c') : Reaches (timingOut inner limit) c part c'
  | primary {primary part : Nest ι ω} {c c' : Context} (fallback : Nest ι ω)
      (h : Reaches primary c part c') : Reaches (orElse primary fallback) c part c'
  | fallback {fallback part : Nest ι ω} {c c' : Context} (primary : Nest ι ω)
      (h : Reaches fallback c part c') : Reaches (orElse primary fallback) c part c'

namespace Reaches

variable {t part : Nest ι ω}

/-- All parts are called for the same node. -/
theorem node_eq (h : t.Reaches c part c') : c'.node = c.node := by
  induction h with
  | self => rfl
  | renamed _ _ ih => exact ih
  | retrying _ _ ih => exact ih
  | timingOut _ _ _ ih => exact ih
  | primary _ _ ih => exact ih
  | fallback _ _ ih => exact ih

theorem mem_bases {a : Agent ι ω} (h : t.Reaches c (.base a) c') : a ∈ t.bases := by
  generalize hpart : Nest.base a = part at h
  induction h with
  | self =>
      subst hpart
      exact List.mem_singleton_self a
  | renamed _ _ ih => exact ih hpart
  | retrying _ _ ih => exact ih hpart
  | timingOut _ _ _ ih => exact ih hpart
  | primary _ _ ih => exact List.mem_append_left _ (ih hpart)
  | fallback _ _ ih => exact List.mem_append_right _ (ih hpart)

end Reaches

/-- A failure that arises in a part itself when it is called under a context. -/
inductive Raises : Nest ι ω → Context → Failure → Prop where
  /-- It is one of the agent's own code. -/
  | code {a : Agent ι ω} {input : Datum ι} {c : Context} {f : Failure}
      (h : (a.start input c).MayEnd (.failure f)) : Raises (base a) c f
  /-- It stands for a fault of the agent's own code, or for one on a copy of the input. -/
  | fault (t : Nest ι ω) (c : Context) (name : String) (fault : Fault) :
      Raises t c (.execution "" name ("panicked: " ++ fault.message))
  /-- It is that of a time limit. -/
  | late (inner : Nest ι ω) (limit : Duration) (c : Context) :
      Raises (timingOut inner limit) c (.timeout (c.node.getD "") limit)

/-- If every failure of a nest's code arises in some part, so does every failure of its execution,
for a fault arises in the nest itself. -/
theorem exists_raises_of_start {t : Nest ι ω}
    (hstart : ∀ input c, (t.agent.start input c).MayEnd (.failure f) →
      ∃ part c', t.Reaches c part c' ∧ part.Raises c' f)
    {input : Datum ι} (h : (t.agent.execute input c).MayEnd (.failure f)) :
    ∃ part c', t.Reaches c part c' ∧ part.Raises c' f := by
  rcases Agent.mayEnd_execute h with h | ⟨fault, rfl⟩
  · exact hstart input c h
  · exact ⟨t, c, .self t c, .fault t c t.agent.name fault⟩

theorem exists_raises_start (t : Nest ι ω) (input : Datum ι) (c : Context)
    (h : (t.agent.start input c).MayEnd (.failure f)) :
    ∃ part c', t.Reaches c part c' ∧ part.Raises c' f := by
  induction t generalizing input c with
  | base a => exact ⟨base a, c, .self _ c, .code h⟩
  | renamed inner name ih =>
      obtain ⟨part, c', hreaches, hraises⟩ := ih input c h
      exact ⟨part, c', .renamed name hreaches, hraises⟩
  | retrying inner p ih =>
      obtain ⟨copy, h⟩ := Agent.mayEnd_attempts h
      obtain ⟨part, c', hreaches, hraises⟩ := exists_raises_of_start ih h
      exact ⟨part, c', .retrying p hreaches, hraises⟩
  | timingOut inner limit ih =>
      rcases Agent.mayEnd_timingOut h with rfl | ⟨s, h⟩
      · exact ⟨timingOut inner limit, c, .self _ c, .late inner limit c⟩
      · obtain ⟨part, c', hreaches, hraises⟩ := exists_raises_of_start ih h
        exact ⟨part, c', .timingOut limit s hreaches, hraises⟩
  | orElse primary fallback ih =>
      obtain ⟨copy, h⟩ := Agent.mayEnd_orElse h
      obtain ⟨part, c', hreaches, hraises⟩ := exists_raises_of_start ih h
      exact ⟨part, c', .primary fallback hreaches, hraises⟩

/-- Every failure of the whole arises in some part. -/
theorem exists_raises (t : Nest ι ω) {input : Datum ι}
    (h : (t.agent.execute input c).MayEnd (.failure f)) :
    ∃ part c', t.Reaches c part c' ∧ part.Raises c' f :=
  exists_raises_of_start t.exists_raises_start h

/-- When its time is over, a time limit at whatever depth reports the node of the whole and its own
duration. -/
theorem Reaches.poll_late {t inner : Nest ι ω} {limit : Duration} {node : String}
    (h : t.Reaches c (.timingOut inner limit) c') (hnode : c.node = some node) (input : Datum ι)
    (s : Session) : ∃ own body, own.node = some node ∧
      ((inner.agent.timingOut limit).start input c').poll s =
        (Call.within ⟨s.now + limit.waitMillis, s.timers⟩ own (.failure (.timeout node limit))
          body).poll ((s.derive c').2.setTimer limit.waitMillis).2 := by
  have hnode' : c'.node = some node := h.node_eq.trans hnode
  refine ⟨(s.derive c').1, inner.agent.execute input (s.derive c').1, hnode', ?_⟩
  rw [Agent.poll_timingOut, hnode']
  rfl

end Nest

end Orchestration
