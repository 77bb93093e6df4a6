import Mathlib.Data.List.TakeDrop
import Orchestration.Text.Reader

/-!
# What readers take off

The readers that others are made of, one by one: what each takes off the front of a text. A repeated
reader takes off a whole list of pieces if it takes off each of them.
-/

namespace Orchestration.Text.Reader

variable {α β : Type}

/-! ## One after the other, one or the other -/

@[simp]
theorem bind_apply (r : Reader α) (f : α → Reader β) (cs : List Char) :
    (r >>= f) cs = (r cs).bind fun p => f p.1 p.2 :=
  rfl

@[simp]
theorem pure_apply (a : α) (cs : List Char) : (pure a : Reader α) cs = some (a, cs) := rfl

@[simp]
theorem failure_apply (cs : List Char) : (failure : Reader α) cs = none := rfl

@[simp]
theorem map_apply (f : α → β) (r : Reader α) (cs : List Char) :
    (f <$> r) cs = (r cs).map fun p => (f p.1, p.2) := by
  change (r cs).bind _ = _
  cases r cs <;> rfl

@[simp]
theorem orElse_apply (r s : Reader α) (cs : List Char) : (r <|> s) cs = (r cs).or (s cs) := by
  change (r cs <|> s cs) = _
  cases r cs <;> rfl

@[simp]
theorem seqRight_apply (r : Reader α) (s : Reader β) (cs : List Char) :
    (r *> s) cs = (r cs).bind fun p => s p.2 :=
  rfl

@[simp]
theorem optional_apply (r : Reader α) (cs : List Char) :
    (optional r : Reader (Option α)) cs =
      some ((r cs).elim (none, cs) fun p => (some p.1, p.2)) := by
  simp only [optional, orElse_apply, map_apply, pure_apply]
  cases r cs <;> rfl

/-! ## Characters -/

@[simp]
theorem peek_apply (cs : List Char) : peek cs = some (cs.head?, cs) := rfl

@[simp]
theorem atEnd_apply (cs : List Char) : atEnd cs = some (cs.isEmpty, cs) := rfl

@[simp]
theorem satisfy_nil (p : Char → Bool) : satisfy p [] = none := rfl

@[simp]
theorem satisfy_cons (p : Char → Bool) (c : Char) (cs : List Char) :
    satisfy p (c :: cs) = if p c then some (c, cs) else none :=
  rfl

@[simp]
theorem char_nil (c : Char) : char c [] = none := rfl

@[simp]
theorem char_cons (c d : Char) (cs : List Char) :
    char d (c :: cs) = if c = d then some ((), cs) else none := by
  unfold char
  by_cases h : c = d <;> simp [h]

@[simp]
theorem exactly_nil (cs : List Char) : exactly [] cs = some ((), cs) := rfl

@[simp]
theorem exactly_cons_nil (c : Char) (word : List Char) : exactly (c :: word) [] = none := rfl

@[simp]
theorem exactly_cons_cons (c d : Char) (word cs : List Char) :
    exactly (d :: word) (c :: cs) = if c = d then exactly word cs else none := by
  rw [exactly, char_cons]
  split <;> rfl

/-! ## As many as possible -/

/-- What is left does not go on with such a character. -/
def Stops (p : Char → Bool) (rest : List Char) : Prop := ∀ c ∈ rest.head?, p c = false

@[simp]
theorem stops_nil (p : Char → Bool) : Stops p [] := fun _ h => by cases h

@[simp]
theorem stops_cons (p : Char → Bool) (c : Char) (cs : List Char) :
    Stops p (c :: cs) ↔ p c = false := by
  simp [Stops]

theorem span_append {p : Char → Bool} {cs rest : List Char} (h : ∀ c ∈ cs, p c)
    (hrest : Stops p rest) : (cs ++ rest).span p = (cs, rest) := by
  rw [List.span_eq_takeWhile_dropWhile, List.takeWhile_append_of_pos h,
    List.dropWhile_append_of_pos h]
  cases rest with
  | nil => simp
  | cons c rest => simp [(stops_cons p c rest).1 hrest]

theorem takeWhile_append {p : Char → Bool} {cs rest : List Char} (h : ∀ c ∈ cs, p c)
    (hrest : Stops p rest) : takeWhile p (cs ++ rest) = some (cs, rest) := by
  rw [takeWhile, span_append h hrest]

theorem takeWhile1_append {p : Char → Bool} {cs rest : List Char} (h : ∀ c ∈ cs, p c)
    (hne : cs ≠ []) (hrest : Stops p rest) : takeWhile1 p (cs ++ rest) = some (cs, rest) := by
  rw [takeWhile1, span_append h hrest]
  cases cs with
  | nil => exact absurd rfl hne
  | cons c cs => rfl

theorem repeated_of_none {r : Reader α} {cs : List Char} (h : r cs = none) :
    repeated r cs = ([], cs) := by
  rw [repeated, h]

theorem repeated_of_some {r : Reader α} {cs rest : List Char} {a : α} (h : r cs = some (a, rest))
    (hlt : rest.length < cs.length) :
    repeated r cs = (a :: (repeated r rest).1, (repeated r rest).2) := by
  rw [repeated, h]
  exact if_pos hlt

/-- A list of pieces is taken off if every piece is, whatever may stand behind it. -/
theorem repeated_pieces {r : Reader α} {items : List β} {piece : β → List Char} {result : β → α}
    (Behind : List Char → Prop) {rest : List Char}
    (hread : ∀ b ∈ items, ∀ tail, Behind tail → r (piece b ++ tail) = some (result b, tail))
    (hpiece : ∀ b ∈ items, piece b ≠ [] ∧ ∀ tail, Behind tail → Behind (piece b ++ tail))
    (hbehind : Behind rest) (hrest : r rest = none) :
    repeated r (items.flatMap piece ++ rest) = (items.map result, rest) := by
  -- what stands behind a piece are the pieces after it and the rest
  suffices h : Behind (items.flatMap piece ++ rest) ∧
      repeated r (items.flatMap piece ++ rest) = (items.map result, rest) from h.2
  induction items with
  | nil => exact ⟨hbehind, repeated_of_none hrest⟩
  | cons b items ih =>
    obtain ⟨hb, ih⟩ := ih (fun b hb => hread b (List.mem_cons_of_mem _ hb))
      fun b hb => hpiece b (List.mem_cons_of_mem _ hb)
    obtain ⟨hne, hkeep⟩ := hpiece b List.mem_cons_self
    rw [List.flatMap_cons, List.append_assoc]
    refine ⟨hkeep _ hb, ?_⟩
    rw [repeated_of_some (hread b List.mem_cons_self _ hb), ih]
    · rfl
    · have := List.length_pos_iff.2 hne
      simp only [List.length_append]
      omega

/-- Characters are taken off one by one. -/
theorem repeated_chars {r : Reader Char} {cs rest : List Char}
    (hread : ∀ c ∈ cs, ∀ tail, r (c :: tail) = some (c, tail)) (hrest : r rest = none) :
    repeated r (cs ++ rest) = (cs, rest) := by
  have h := @repeated_pieces Char Char r cs (fun c => [c]) id (fun _ => True) rest
    (fun c hc tail _ => hread c hc tail) (fun c _ => ⟨List.cons_ne_nil _ _, fun _ _ => trivial⟩)
    trivial hrest
  rwa [List.flatMap_singleton', List.map_id] at h

end Orchestration.Text.Reader
