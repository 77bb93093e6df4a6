/-!
# Entries

Lists of keyed values, read by the first value of a key. Setting a key replaces its value where it
stands, or adds the key at the end. Main statements: what reading finds after a change, and that
distinct keys stay distinct and in order.
-/

namespace Orchestration

/-- Values under keys. -/
abbrev Entries (κ α : Type) := List (κ × α)

namespace Entries

variable {κ α : Type} [BEq κ]

def keys (entries : Entries κ α) : List κ := entries.map (·.1)

def set (key : κ) (v : α) : Entries κ α → Entries κ α
  | [] => [(key, v)]
  | e :: rest => if e.1 == key then (key, v) :: rest else e :: set key v rest

variable [LawfulBEq κ]

theorem lookup_set (key k : κ) (v : α) (entries : Entries κ α) :
    (set key v entries).lookup k = if k == key then some v else entries.lookup k := by
  induction entries with
  | nil => cases h : k == key <;> simp [set, List.lookup_cons, h]
  | cons e rest ih =>
    obtain ⟨key', w⟩ := e
    rw [set]
    split
    · rename_i he
      obtain rfl : key' = key := eq_of_beq he
      cases h : k == key' <;> simp [List.lookup_cons, h]
    · rename_i he
      rw [List.lookup_cons, List.lookup_cons, ih]
      cases hk : k == key' with
      | false => rfl
      | true =>
        obtain rfl : k = key' := eq_of_beq hk
        simp [Bool.eq_false_iff.2 he]

theorem keys_set_of_mem (key : κ) (v : α) (entries : Entries κ α) (h : key ∈ entries.keys) :
    (set key v entries).keys = entries.keys := by
  induction entries with
  | nil => cases h
  | cons e rest ih =>
    rw [set]
    split
    · rename_i he
      simp [keys, eq_of_beq he]
    · rename_i he
      have hr : key ∈ keys rest := by
        rcases List.mem_cons.1 h with h | h
        · exact absurd (h ▸ BEq.rfl) he
        · exact h
      simpa [keys] using ih hr

/-- A new key is added at the end. -/
theorem set_of_notMem (key : κ) (v : α) (entries : Entries κ α) (h : key ∉ entries.keys) :
    set key v entries = entries ++ [(key, v)] := by
  induction entries with
  | nil => rfl
  | cons e rest ih =>
    obtain ⟨he, hr⟩ : e.1 ≠ key ∧ key ∉ keys rest := by simpa [keys, eq_comm] using h
    rw [set, if_neg (by simpa using he), ih hr, List.cons_append]

theorem keys_set_of_notMem (key : κ) (v : α) (entries : Entries κ α) (h : key ∉ entries.keys) :
    (set key v entries).keys = entries.keys ++ [key] := by
  rw [set_of_notMem key v entries h]
  simp [keys]

theorem nodup_keys_set (key : κ) (v : α) (entries : Entries κ α) (h : entries.keys.Nodup) :
    (set key v entries).keys.Nodup := by
  by_cases hk : key ∈ entries.keys
  · rwa [keys_set_of_mem key v entries hk]
  · rw [keys_set_of_notMem key v entries hk]
    exact List.nodup_append.2 ⟨h, by simp, fun a ha b hb => by
      rw [List.mem_singleton.1 hb]
      exact fun hab => hk (hab ▸ ha)⟩

end Entries

end Orchestration
