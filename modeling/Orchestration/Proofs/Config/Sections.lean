import Orchestration.Config.Toml
import Orchestration.Proofs.Toml.Filling

/-!
# The sections of a configuration

A configuration can be rendered exactly if its integers fit the format, and the tables that its
sections fill are read as its parts. So the text of a configuration is read as the configuration.
-/

namespace Orchestration.Config

open Toml

/-- The values of all integer fields that are there. -/
def integers (c : Config) : List Nat :=
  c.runner.maxConcurrency.toList.map (·.toNat) ++ c.policies.timeoutMillis.toList.map (·.toNat) ++
    c.policies.retry.toList.flatMap fun r =>
      [r.maxAttempts.toNat, r.backoffMillis.toNat] ++ r.maxBackoffMillis.toList.map (·.toNat)

/-! ## Rendering -/

/-- Some key of a section has an integer for its value. -/
def HasInteger (s : Section) (n : Nat) : Prop := ∃ e ∈ s.entries, e.2 = some (.integer n)

theorem written_eq_some_iff {w : Option UInt64} {n : Nat} :
    written w = some (.integer n) ↔ n ∈ w.toList.map (·.toNat) := by
  cases w <;> simp [written, eq_comm]

theorem hasInteger_runnerSection (c : RunnerConfig) (n : Nat) :
    HasInteger (runnerSection c) n ↔ n ∈ c.maxConcurrency.toList.map (·.toNat) := by
  simp only [HasInteger, runnerSection, List.mem_singleton, exists_eq_left, written_eq_some_iff]

theorem hasInteger_policiesSection (c : PolicyConfig) (n : Nat) :
    HasInteger (policiesSection c) n ↔ n ∈ c.timeoutMillis.toList.map (·.toNat) := by
  simp only [HasInteger, policiesSection, List.mem_singleton, exists_eq_left, written_eq_some_iff]

theorem hasInteger_retrySection (c : RetryConfig) (n : Nat) :
    HasInteger (retrySection c) n ↔ n ∈ [c.maxAttempts.toNat, c.backoffMillis.toNat] ++
      c.maxBackoffMillis.toList.map (·.toNat) := by
  have hmultiplier : c.multiplier.map Scalar.float ≠ some (.integer n) := by
    cases c.multiplier <;> simp
  simp only [HasInteger, retrySection, List.mem_cons, exists_eq_or_imp, List.not_mem_nil, or_false,
    exists_eq_left, hmultiplier, false_or, written_eq_some_iff, Option.some.injEq,
    Scalar.integer.injEq, List.cons_append, List.nil_append, eq_comm]

/-- The integers in the sections are those of the configuration. -/
theorem mem_integers_iff (c : Config) (n : Nat) :
    n ∈ c.integers ↔ ∃ s ∈ c.sections, HasInteger s n := by
  obtain ⟨⟨concurrency⟩, ⟨retry, timeout⟩⟩ := c
  have hrunner := hasInteger_runnerSection ⟨concurrency⟩ n
  have hpolicies := hasInteger_policiesSection ⟨retry, timeout⟩ n
  cases retry with
  | none =>
    simp only [sections, List.mem_cons, exists_eq_or_imp, List.not_mem_nil, or_false,
      exists_eq_left, hrunner, hpolicies]
    simp [integers]
  | some r =>
    have hretry := hasInteger_retrySection r n
    cases timeout with
    | none =>
      simp only [sections, Option.isNone_none, if_true, List.mem_cons, exists_eq_or_imp,
        List.not_mem_nil, or_false, exists_eq_left, hrunner, hretry]
      simp [integers]
    | some t =>
      simp only [sections, Option.isNone_some, Bool.false_eq_true, if_false, List.mem_cons,
        exists_eq_or_imp, List.not_mem_nil, or_false, exists_eq_left, hrunner, hretry, hpolicies]
      simp [integers]

/-- A configuration can be rendered exactly if no integer field is too large for the format. -/
theorem isSome_toToml?_iff (c : Config) :
    c.toToml?.isSome ↔ ∀ n ∈ c.integers, n ≤ maxInteger := by
  rw [toToml?, isSome_render?_iff]
  constructor
  · intro h n hn
    obtain ⟨s, hs, e, he, heq⟩ := (mem_integers_iff c n).1 hn
    exact h s hs e he n heq
  · intro h s hs e he n heq
    exact h n ((mem_integers_iff c n).2 ⟨s, hs, e, he, heq⟩)

/-! ## Reading what has been rendered -/

theorem named_runnerSection (c : RunnerConfig) : (runnerSection c).Named "runner" [] where
  header := show "runner".toList = dotted ["runner"] by decide
  bare := by decide
  short := by decide
  keys := by
    simp only [runnerSection, List.mem_singleton, forall_eq]
    decide

theorem named_policiesSection (c : PolicyConfig) : (policiesSection c).Named "policies" [] where
  header := show "policies".toList = dotted ["policies"] by decide
  bare := by decide
  short := by decide
  keys := by
    simp only [policiesSection, List.mem_singleton, forall_eq]
    decide

theorem named_retrySection (c : RetryConfig) : (retrySection c).Named "policies" ["retry"] where
  header := show "policies.retry".toList = dotted ["policies", "retry"] by decide
  bare := by decide
  short := by decide
  keys := by
    simp only [retrySection, List.forall_mem_cons]
    exact ⟨by decide, by decide, by decide, by decide, List.forall_mem_nil _⟩

/-! ### What the tables of the sections are read as -/

theorem natBelow?_natCast {bound n : Nat} (h : n < bound) :
    natBelow? bound (.integer n) = some n := by
  rw [natBelow?, if_pos ⟨Int.natCast_nonneg n, Int.ofNat_lt.2 h⟩, Int.toNat_natCast]

theorem word64?_toNat (n : UInt64) : word64? (.integer n.toNat) = some n := by
  rw [word64?, natBelow?_natCast n.toNat_lt, Option.map_some, UInt64.ofNat_toNat]

theorem word32?_toNat (n : UInt32) : word32? (.integer n.toNat) = some n := by
  rw [word32?, natBelow?_natCast n.toNat_lt, Option.map_some, UInt32.ofNat_toNat]

/-- A part that has been written under its name, or left out. -/
theorem optional?_written {entries : List (String × Toml.Value)} {name : String} {w : Option UInt64}
    (h : entries.lookup name = w.map fun n => Toml.Value.integer n.toNat) (index : Nat) :
    (Parts.named entries).optional? index name word64? = some w := by
  rw [Parts.optional?, Parts.get?, h]
  cases w with
  | none => rfl
  | some n => simp [word64?_toNat]

theorem runner?_values (c : RunnerConfig) :
    runner? (.table .header (runnerSection c).values) = some c := by
  have h : (runnerSection c).values.lookup "max_concurrency" =
      c.maxConcurrency.map fun n => Toml.Value.integer n.toNat := by
    obtain ⟨_ | n⟩ := c <;> rfl
  rw [runner?, Parts.ofValue?]
  simp [optional?_written h]

theorem retry?_eq_some {v : Toml.Value} {parts : Parts} {c : RetryConfig}
    (hparts : Parts.ofValue? v = some parts)
    (hattempts : parts.required? 0 "max_attempts" word32? = some c.maxAttempts)
    (hbackoff : parts.required? 1 "backoff_ms" word64? = some c.backoffMillis)
    (hmultiplier : parts.optional? 2 "backoff_multiplier" number? = some c.multiplier)
    (hcap : parts.optional? 3 "max_backoff_ms" word64? = some c.maxBackoffMillis) :
    retry? v = some c := by
  simp only [ retry?, hparts, hattempts, hbackoff, hmultiplier, hcap, Option.bind_eq_bind,
    Option.bind_some, Option.pure_def]

theorem retry?_values (c : RetryConfig) :
    retry? (.table .header (retrySection c).values) = some c := by
  have hattempts : (retrySection c).values.lookup "max_attempts" =
      some (Toml.Value.integer c.maxAttempts.toNat) := rfl
  have hbackoff : (retrySection c).values.lookup "backoff_ms" =
      some (Toml.Value.integer c.backoffMillis.toNat) := rfl
  have hmultiplier : (retrySection c).values.lookup "backoff_multiplier" =
      c.multiplier.map Toml.Value.float := by
    obtain ⟨_, _, _ | x, _ | n⟩ := c <;> rfl
  have hcap : (retrySection c).values.lookup "max_backoff_ms" =
      c.maxBackoffMillis.map fun n => Toml.Value.integer n.toNat := by
    obtain ⟨_, _, _ | x, _ | n⟩ := c <;> rfl
  refine retry?_eq_some rfl ?_ ?_ ?_ (optional?_written hcap 3)
  · rw [Parts.required?, Parts.get?, hattempts, Option.bind_some, word32?_toNat]
  · rw [Parts.required?, Parts.get?, hbackoff, Option.bind_some, word64?_toNat]
  · rw [Parts.optional?, Parts.get?, hmultiplier]
    cases c.multiplier <;> rfl

/-- The table of the policies may hold their values in any order. -/
theorem policies?_values {c : PolicyConfig} {origin : Origin} {entries : List (String × Toml.Value)}
    (hretry : entries.lookup "retry" =
      c.retry.map fun r => Toml.Value.table .header (retrySection r).values)
    (htimeout : entries.lookup "timeout_ms" =
      c.timeoutMillis.map fun n => Toml.Value.integer n.toNat) :
    policies? (.table origin entries) = some c := by
  have hread : (Parts.named entries).optional? 0 "retry" retry? = some c.retry := by
    rw [Parts.optional?, Parts.get?, hretry]
    cases c.retry with
    | none => rfl
    | some r => simp [retry?_values]
  rw [policies?, Parts.ofValue?]
  simp [hread, optional?_written htimeout]

/-- What the root of a document with the tables of a configuration is read as. -/
theorem ofToml?_of_parse {document : String} {t : Table} {c : Config} {origin : Origin}
    {policies : List (String × Toml.Value)} (ht : Toml.parse document = some t)
    (hrunner : t.entries.lookup "runner" = some (.table .header (runnerSection c.runner).values))
    (hpolicies : t.entries.lookup "policies" = some (.table origin policies))
    (hread : policies? (.table origin policies) = some c.policies) :
    ofToml? document = some c := by
  have h1 : (Parts.named t.entries).optional? 0 "runner" runner? = some (some c.runner) := by
    rw [Parts.optional?, Parts.get?, hrunner]
    dsimp only
    rw [runner?_values]
    rfl
  have h2 : (Parts.named t.entries).optional? 1 "policies" policies? = some (some c.policies) := by
    rw [Parts.optional?, Parts.get?, hpolicies]
    dsimp only
    rw [hread]
    rfl
  simp only [ofToml?, ht, h1, h2, Option.bind_eq_bind, Option.bind_some, Option.pure_def,
    Option.getD_some]

theorem nodup_runnerSection (c : RunnerConfig) :
    (Entries.keys (runnerSection c).values).Nodup := by
  obtain ⟨_ | n⟩ := c <;> simp [Entries.keys, runnerSection, Section.values, written]

theorem nodup_policiesSection (c : PolicyConfig) :
    (Entries.keys (policiesSection c).values).Nodup := by
  obtain ⟨_, _ | n⟩ := c <;> simp [Entries.keys, policiesSection, Section.values, written]

theorem nodup_retrySection (c : RetryConfig) :
    (Entries.keys (retrySection c).values).Nodup := by
  obtain ⟨_, _, _ | x, _ | n⟩ := c <;>
    simp [Entries.keys, retrySection, Section.values, written]

theorem lookup_timeout_values (c : PolicyConfig) :
    (policiesSection c).values.lookup "timeout_ms" =
      c.timeoutMillis.map fun n => Toml.Value.integer n.toNat := by
  obtain ⟨_, _ | n⟩ := c <;> rfl

theorem lookup_retry_values (c : PolicyConfig) :
    (policiesSection c).values.lookup "retry" = none := by
  obtain ⟨_, _ | n⟩ := c <;> rfl

/-- The first section of every configuration opens the table of the runs, which the other sections
leave as it is. -/
theorem parse_of_sections {c : RunnerConfig} {parts : List (Section × String × List String)}
    {document : String} {entries : Entries String Toml.Value} {current : List String}
    (hparts : ∀ p ∈ parts, p.1.Named p.2.1 p.2.2)
    (ht : render? (runnerSection c :: parts.map (·.1)) = some document)
    (hfill : (parts.flatMap fun p => p.1.said p.2.1 p.2.2).foldlM Filling.apply
      ⟨⟨.header, [("runner", .table .header (runnerSection c).values)]⟩, ["runner"]⟩ =
        some ⟨⟨.header, entries⟩, current⟩) :
    Toml.parse document = some ⟨.header, entries⟩ := by
  have hsays := @says_render ((runnerSection c, "runner", []) :: parts) document
    (List.forall_mem_cons.2 ⟨named_runnerSection c, hparts⟩) ht
  have hrunner : ((runnerSection c).said "runner" []).foldlM Filling.apply ⟨.root, []⟩ =
      some ⟨⟨.header, [("runner", .table .header (runnerSection c).values)]⟩, ["runner"]⟩ :=
    fill_top (nodup_runnerSection c) List.not_mem_nil []
  have hall : (((runnerSection c, "runner", []) :: parts).flatMap
      fun p => p.1.said p.2.1 p.2.2).foldlM Filling.apply ⟨.root, []⟩ =
        some ⟨⟨.header, entries⟩, current⟩ := by
    rw [List.flatMap_cons, List.foldlM_append]
    exact (congrArg (Option.bind · _) hrunner).trans hfill
  exact parse_of_says hsays hall

/-- The text of a configuration is parsed as a document with a table for the runs and one for the
policies. -/
theorem parse_toToml? {c : Config} {document : String} (h : c.toToml? = some document) :
    ∃ origin policies, Toml.parse document = some ⟨.header, [
        ("runner", .table .header (runnerSection c.runner).values),
        ("policies", .table origin policies)]⟩ ∧
      policies.lookup "retry" =
        (c.policies.retry.map fun r => Toml.Value.table .header (retrySection r).values) ∧
      policies.lookup "timeout_ms" =
        c.policies.timeoutMillis.map fun n => Toml.Value.integer n.toNat := by
  obtain ⟨runner, ⟨retry, timeout⟩⟩ := c
  have hpolicies := named_policiesSection ⟨retry, timeout⟩
  have hkeys := nodup_policiesSection ⟨retry, timeout⟩
  have htop : "policies" ∉ Entries.keys
      [("runner", Toml.Value.table .header (runnerSection runner).values)] := by
    simp [Entries.keys]
  have htimeout := lookup_timeout_values ⟨retry, timeout⟩
  cases retry with
  | none =>
    refine ⟨.header, (policiesSection ⟨none, timeout⟩).values,
      @parse_of_sections runner [(policiesSection ⟨none, timeout⟩, "policies", [])] document _
        ["policies"] (by simpa) h ?_, lookup_retry_values _, htimeout⟩
    rw [List.flatMap_singleton]
    exact fill_top hkeys htop ["runner"]
  | some r =>
    have hretry := named_retrySection r
    cases timeout with
    | none =>
      -- the table of the policies is implied by that of the retries
      refine ⟨.implied, [("retry", .table .header (retrySection r).values)],
        @parse_of_sections runner [(retrySection r, "policies", ["retry"])] document _
          ["policies", "retry"] (by simpa) h ?_, rfl, rfl⟩
      rw [List.flatMap_singleton]
      exact fill_implied (nodup_retrySection r) htop ["runner"]
    | some n =>
      refine ⟨.header, (policiesSection ⟨some r, some n⟩).values ++
          [("retry", .table .header (retrySection r).values)],
        @parse_of_sections runner [(policiesSection ⟨some r, some n⟩, "policies", []),
          (retrySection r, "policies", ["retry"])] document _
          ["policies", "retry"] (by simp [hpolicies, hretry]) h ?_, rfl, rfl⟩
      rw [List.flatMap_cons, List.flatMap_singleton, List.foldlM_append]
      have hfree : "retry" ∉ Entries.keys (policiesSection ⟨some r, some n⟩).values := by
        simp [Entries.keys, policiesSection, Section.values, written]
      have hbelow := fill_below (nodup_retrySection r) htop hfree ["policies"]
      exact (congrArg (Option.bind · _) (fill_top hkeys htop ["runner"])).trans hbelow

/-- The text of a configuration is read as the configuration. -/
theorem ofToml?_toToml? {c : Config} {document : String} (h : c.toToml? = some document) :
    ofToml? document = some c := by
  obtain ⟨origin, policies, hparse, hretry, htimeout⟩ := parse_toToml? h
  exact ofToml?_of_parse hparse rfl rfl (policies?_values hretry htimeout)

end Orchestration.Config
