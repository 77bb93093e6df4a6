import Orchestration.Proofs.Config.Sections
import Orchestration.Proofs.Toml.Bounds

/-!
# The integers of a configuration that has been read

None of them is too large for the format, so what has been read can be rendered.
-/

namespace Orchestration.Config

open Toml

/-! ## Parts -/

/-- No integer in the parts of a section is too large. -/
def Parts.Bounded (p : Parts) : Prop :=
  ∀ index name v, p.get? index name = some v → v.Bounded

theorem bounded_named {entries : List (String × Toml.Value)} (h : ∀ e ∈ entries, e.2.Bounded) :
    (Parts.named entries).Bounded :=
  fun _ _ _ hv => Table.Bounded.get? (t := ⟨.header, entries⟩) h hv

theorem bounded_listed {items : List Toml.Value} (h : ∀ v ∈ items, v.Bounded) :
    (Parts.listed items).Bounded :=
  fun _ _ _ hv => h _ (List.mem_of_getElem? hv)

theorem bounded_ofValue? {v : Toml.Value} {p : Parts} (h : v.Bounded) (hp : Parts.ofValue? v = some p) :
    p.Bounded := by
  cases h with
  | text | integer | float | boolean => cases hp
  | moment =>
    obtain rfl := Option.some.inj hp
    exact bounded_named (List.forall_mem_nil _)
  | array h =>
    obtain rfl := Option.some.inj hp
    exact bounded_listed h
  | tables h =>
    obtain rfl := Option.some.inj hp
    refine bounded_listed fun v hv => ?_
    obtain ⟨es, hes, rfl⟩ := List.mem_map.1 hv
    exact .table _ (h es hes)
  | table _ h =>
    obtain rfl := Option.some.inj hp
    exact bounded_named h

theorem optional?_eq_some {α : Type} {p : Parts} {index : Nat} {name : String}
    {read : Toml.Value → Option α} {a : α} (h : p.optional? index name read = some (some a)) :
    ∃ v, p.get? index name = some v ∧ read v = some a := by
  rw [Parts.optional?] at h
  split at h
  · cases h
  · rename_i v hv
    obtain ⟨b, hb, heq⟩ := Option.map_eq_some_iff.1 h
    exact ⟨v, hv, hb.trans heq⟩

theorem word64?_le {v : Toml.Value} {n : UInt64} (h : v.Bounded) (hn : word64? v = some n) :
    n.toNat ≤ maxInteger := by
  obtain ⟨k, hk, rfl⟩ := Option.map_eq_some_iff.1 hn
  cases h with
  | @integer i hi =>
    rw [natBelow?] at hk
    split at hk
    · rename_i hrange
      obtain rfl := Option.some.inj hk
      rw [UInt64.toNat_ofNat_of_lt' (by omega)]
      omega
    · cases hk
  | _ => cases hk

theorem optional?_word64?_le {p : Parts} (h : p.Bounded) {index : Nat} {name : String}
    {w : Option UInt64} (hw : p.optional? index name word64? = some w) :
    ∀ n ∈ w.toList.map (·.toNat), n ≤ maxInteger := by
  cases w with
  | none => exact List.forall_mem_nil _
  | some n =>
    obtain ⟨v, hv, hn⟩ := optional?_eq_some hw
    simpa using word64?_le (h _ _ v hv) hn

/-! ## Sections -/

theorem runner?_le {v : Toml.Value} {c : RunnerConfig} (h : v.Bounded) (hc : runner? v = some c) :
    ∀ n ∈ c.maxConcurrency.toList.map (·.toNat), n ≤ maxInteger := by
  obtain ⟨p, hp, hrest⟩ := Option.bind_eq_some_iff.1 hc
  obtain ⟨w, hw, heq⟩ := Option.bind_eq_some_iff.1 hrest
  obtain rfl := Option.some.inj heq
  exact optional?_word64?_le (bounded_ofValue? h hp) hw

theorem retry?_le {v : Toml.Value} {c : RetryConfig} (h : v.Bounded) (hc : retry? v = some c) :
    ∀ n ∈ [c.maxAttempts.toNat, c.backoffMillis.toNat] ++ c.maxBackoffMillis.toList.map (·.toNat),
      n ≤ maxInteger := by
  obtain ⟨p, hp, hrest⟩ := Option.bind_eq_some_iff.1 hc
  obtain ⟨attempts, hattempts, hrest⟩ := Option.bind_eq_some_iff.1 hrest
  obtain ⟨backoff, hbackoff, hrest⟩ := Option.bind_eq_some_iff.1 hrest
  obtain ⟨multiplier, hmultiplier, hrest⟩ := Option.bind_eq_some_iff.1 hrest
  obtain ⟨cap, hcap, heq⟩ := Option.bind_eq_some_iff.1 hrest
  obtain rfl := Option.some.inj heq
  have hbounded := bounded_ofValue? h hp
  have hsmall : attempts.toNat ≤ maxInteger :=
    Nat.le_trans (Nat.le_of_lt attempts.toNat_lt) (by decide)
  have hbackoff' : backoff.toNat ≤ maxInteger := by
    obtain ⟨w, hw, hread⟩ := Option.bind_eq_some_iff.1 hbackoff
    exact word64?_le (hbounded _ _ w hw) hread
  intro n hn
  rcases List.mem_append.1 hn with hn | hn
  · simp only [List.mem_cons, List.not_mem_nil, or_false] at hn
    rcases hn with rfl | rfl
    · exact hsmall
    · exact hbackoff'
  · exact optional?_word64?_le hbounded hcap n hn

theorem policies?_le {v : Toml.Value} {c : PolicyConfig} (h : v.Bounded)
    (hc : policies? v = some c) :
    (∀ n ∈ c.timeoutMillis.toList.map (·.toNat), n ≤ maxInteger) ∧
      ∀ r ∈ c.retry, ∀ n ∈ [r.maxAttempts.toNat, r.backoffMillis.toNat] ++
        r.maxBackoffMillis.toList.map (·.toNat), n ≤ maxInteger := by
  obtain ⟨p, hp, hrest⟩ := Option.bind_eq_some_iff.1 hc
  obtain ⟨retry, hretry, hrest⟩ := Option.bind_eq_some_iff.1 hrest
  obtain ⟨timeout, htimeout, heq⟩ := Option.bind_eq_some_iff.1 hrest
  obtain rfl := Option.some.inj heq
  have hbounded := bounded_ofValue? h hp
  refine ⟨optional?_word64?_le hbounded htimeout, fun r hr => ?_⟩
  obtain rfl : retry = some r := hr
  obtain ⟨w, hw, hread⟩ := optional?_eq_some hretry
  exact retry?_le (hbounded _ _ w hw) hread

/-- No integer of a configuration that has been read is too large. -/
theorem integers_le_of_ofToml? {document : String} {c : Config} (h : ofToml? document = some c) :
    ∀ n ∈ c.integers, n ≤ maxInteger := by
  obtain ⟨t, ht, hrest⟩ := Option.bind_eq_some_iff.1 h
  obtain ⟨runner, hrunner, hrest⟩ := Option.bind_eq_some_iff.1 hrest
  obtain ⟨policies, hpolicies, heq⟩ := Option.bind_eq_some_iff.1 hrest
  obtain rfl := Option.some.inj heq
  have hbounded := bounded_named (bounded_parse ht)
  intro n hn
  simp only [integers, List.mem_append, List.mem_flatMap, Option.mem_toList] at hn
  rcases hn with (hn | hn) | ⟨r, hr, hn⟩
  · cases runner with
    | none => cases hn
    | some runner =>
      obtain ⟨v, hv, hread⟩ := optional?_eq_some hrunner
      exact runner?_le (hbounded _ _ v hv) hread n hn
  · cases policies with
    | none => cases hn
    | some policies =>
      obtain ⟨v, hv, hread⟩ := optional?_eq_some hpolicies
      exact (policies?_le (hbounded _ _ v hv) hread).1 n hn
  · cases policies with
    | none => cases hr
    | some policies =>
      obtain ⟨v, hv, hread⟩ := optional?_eq_some hpolicies
      exact (policies?_le (hbounded _ _ v hv) hread).2 r hr n (List.mem_append.2 hn)

end Orchestration.Config
