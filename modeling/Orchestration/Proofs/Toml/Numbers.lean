import Orchestration.Proofs.Binary64.Positional
import Orchestration.Proofs.Text.Reading
import Orchestration.Toml.Document
import Orchestration.Toml.Printer

/-!
# Written numbers read back

At the end of a line, the text of a number is read as the number: as neither a text nor a date before
it, and an integer not as a float either.
-/

namespace Orchestration.Toml

open Text Text.Reader

/-! ## Digits -/

theorem ne_of_isDigit {c d : Char} (hc : c.isDigit) (hd : d.isDigit = false) : c ≠ d := by
  rintro rfl
  rw [hc] at hd
  cases hd

/-- Whether digits may go on with a character. -/
def continuesDigits (c : Char) : Bool := c.isDigit || c = '_'

theorem digitGroup_append {ds rest : List Char} (hds : ∀ c ∈ ds, c.isDigit) (hne : ds ≠ [])
    (hrest : Stops continuesDigits rest) : digitGroup Char.isDigit (ds ++ rest) = some (ds, rest) := by
  obtain ⟨d, ds, rfl⟩ := List.exists_cons_of_ne_nil hne
  have hstop : (satisfy Char.isDigit <|> (do char '_'; satisfy Char.isDigit)) rest = none := by
    cases rest with
    | nil => rfl
    | cons c rest =>
      obtain ⟨h1, h2⟩ := Bool.or_eq_false_iff.1 ((stops_cons _ c rest).1 hrest)
      simp [h1, of_decide_eq_false h2]
  have hmany := @repeated_chars _ ds rest
    (fun c hc tail => by simp [hds c (List.mem_cons_of_mem _ hc)]) hstop
  simp [digitGroup, hds d, many, hmany]

theorem wholeDigits_append {ds rest : List Char} (h : Whole ds)
    (hrest : Stops continuesDigits rest) : wholeDigits (ds ++ rest) = some (ds, rest) := by
  obtain ⟨hds, rfl | ⟨c, cs, rfl, hc⟩⟩ := h
  · rfl
  · have hgroup := digitGroup_append hds (List.cons_ne_nil _ _) hrest
    unfold wholeDigits
    rw [bind_apply, peek_apply, Option.bind_some]
    generalize hfirst : (c :: cs ++ rest).head? = first
    refine (congrFun ?_ _).trans hgroup
    dsimp only
    split
    · exact absurd (Option.some.inj hfirst) hc
    · rfl

/-- A minus if the number is negative. -/
def minus (negative : Bool) : List Char := if negative then ['-'] else []

@[simp]
theorem minus_true : minus true = ['-'] := rfl

@[simp]
theorem minus_false : minus false = [] := rfl

/-- Whether a character is a sign. -/
def isSign (c : Char) : Bool := c = '-' || c = '+'

theorem sign_minus (negative : Bool) {cs : List Char} (h : Stops isSign cs) :
    sign (minus negative ++ cs) = some (negative, cs) := by
  cases negative with
  | true => rfl
  | false =>
    cases cs with
    | nil => rfl
    | cons c cs =>
      obtain ⟨h1, h2⟩ := Bool.or_eq_false_iff.1 ((stops_cons _ c cs).1 h)
      simp [sign, minus, of_decide_eq_false h1, of_decide_eq_false h2]

/-- A number begins with a digit or a minus. -/
theorem stops_of_whole {p : Char → Bool} (hp : ∀ c, c.isDigit → p c = false) (hminus : p '-' = false)
    (negative : Bool) {ds : List Char} (h : Whole ds) (rest : List Char) :
    Stops p (minus negative ++ (ds ++ rest)) := by
  obtain ⟨c, cs, rfl, hc⟩ := h.eq_cons
  cases negative with
  | false => exact (stops_cons _ _ _).2 (hp c hc)
  | true => exact (stops_cons _ _ _).2 hminus

theorem stops_isSign_of_whole {ds : List Char} (h : Whole ds) (rest : List Char) :
    Stops isSign (ds ++ rest) := by
  obtain ⟨c, cs, rfl, hc⟩ := h.eq_cons
  simp [isSign, ne_of_isDigit hc (d := '-') rfl, ne_of_isDigit hc (d := '+') rfl]

/-! ## What a number is not -/

/-- Whether a text begins with a character. -/
def isQuote (c : Char) : Bool := c = '"' || c = '\''

theorem text_of_stops {cs : List Char} (h : Stops isQuote cs) : text cs = none := by
  cases cs with
  | nil => rfl
  | cons c cs =>
    obtain ⟨h1, h2⟩ := Bool.or_eq_false_iff.1 ((stops_cons _ c cs).1 h)
    have h1 : c ≠ '"' := of_decide_eq_false h1
    have h2 : c ≠ '\'' := of_decide_eq_false h2
    simp [text, longBasicText, basicText, longLiteralText, literalText, longText, h1, h2,
      List.replicate_succ]

theorem times_digits {n : Nat} {cs ds rest : List Char}
    (h : times (satisfy Char.isDigit) n cs = some (ds, rest)) :
    rest.dropWhile Char.isDigit = cs.dropWhile Char.isDigit := by
  induction n generalizing cs ds with
  | zero =>
    obtain ⟨-, rfl⟩ := Prod.mk.inj (Option.some.inj h)
    rfl
  | succ n ih =>
    cases cs with
    | nil => cases h
    | cons c cs =>
      simp only [times, bind_apply, satisfy_cons] at h
      split at h
      · rename_i hc
        rw [Option.bind_some] at h
        obtain ⟨⟨more, rest'⟩, hmore, heq⟩ := Option.bind_eq_some_iff.1 h
        obtain ⟨-, rfl⟩ := Prod.mk.inj (Option.some.inj heq)
        rw [List.dropWhile_cons_of_pos hc]
        exact ih hmore
      · cases h

theorem field_digits {n low high v : Nat} {cs rest : List Char}
    (h : field n low high cs = some (v, rest)) :
    rest.dropWhile Char.isDigit = cs.dropWhile Char.isDigit := by
  obtain ⟨⟨ds, rest'⟩, hds, heq⟩ := Option.bind_eq_some_iff.1 h
  dsimp only at heq
  split at heq
  · obtain ⟨-, rfl⟩ := Prod.mk.inj (Option.some.inj heq)
    exact times_digits hds
  · cases heq

/-- No part of a date or a time in front. -/
theorem field_bind_of_ne {α : Type} {n low high : Nat} {d : Char} (hd : d.isDigit = false)
    {r : Nat → Reader α} {cs : List Char} (h : (cs.dropWhile Char.isDigit).head? ≠ some d) :
    (do let v ← field n low high; char d; r v : Reader α) cs = none := by
  rw [bind_apply]
  rcases hf : field n low high cs with _ | ⟨v, rest⟩
  · rfl
  · rw [Option.bind_some, bind_apply]
    cases rest with
    | nil => rfl
    | cons c rest =>
      have hc : c ≠ d := by
        rintro rfl
        rw [← field_digits hf, List.dropWhile_cons_of_neg (by simp [hd])] at h
        exact h rfl
      simp [hc]

theorem moment_of_digits {cs : List Char} (h1 : (cs.dropWhile Char.isDigit).head? ≠ some '-')
    (h2 : (cs.dropWhile Char.isDigit).head? ≠ some ':') : moment cs = none := by
  have hdate : date cs = none := field_bind_of_ne rfl h1
  have htime : time cs = none := field_bind_of_ne rfl h2
  simp [moment, hdate, htime]

theorem moment_of_stops {cs : List Char} (h : Stops Char.isDigit cs) : moment cs = none := by
  have hsatisfy : satisfy Char.isDigit cs = none := by
    cases cs with
    | nil => rfl
    | cons c cs => simp [(stops_cons _ c cs).1 h]
  have hfield {n low high : Nat} : field (n + 1) low high cs = none := by
    simp [field, times, hsatisfy]
  simp [moment, date, time, hfield]

/-! ## Floats -/

theorem fraction_append {places rest : List Char} (h : ∀ c ∈ places, c.isDigit)
    (hne : places ≠ []) (hrest : Stops continuesDigits rest) :
    fraction ('.' :: places ++ rest) = some (places, rest) := by
  simp [fraction, digitGroup_append h hne hrest]

theorem digitalFloat_positional (negative : Bool) {whole places : List Char}
    (h : Positional whole places) (rest : List Char)
    (hfinite : Binary64.ofDecimal negative (.ofPositional whole places) ≠ .infinite false) :
    digitalFloat (minus negative ++ (whole ++ '.' :: places ++ '\n' :: rest)) =
      some (Binary64.ofDecimal negative (.ofPositional whole places), '\n' :: rest) := by
  have hwhole : wholeDigits (whole ++ ('.' :: places ++ '\n' :: rest)) =
      some (whole, '.' :: places ++ '\n' :: rest) :=
    wholeDigits_append h.whole ((stops_cons _ _ _).2 rfl)
  have hplaces : fraction ('.' :: places ++ '\n' :: rest) = some (places, '\n' :: rest) :=
    fraction_append h.places_digits h.places_ne ((stops_cons _ _ _).2 rfl)
  have hsign := sign_minus negative (stops_isSign_of_whole h.whole ('.' :: places ++ '\n' :: rest))
  unfold digitalFloat
  rw [List.append_assoc, bind_apply, hsign, Option.bind_some, bind_apply, hwhole, Option.bind_some,
    bind_apply, optional_apply, hplaces]
  simp only [exponent, Option.elim, Option.isSome_some, if_true, Option.bind_some, bind_apply,
    orElse_apply, optional_apply, char_cons, Char.reduceEq, if_false, Option.or_none,
    Option.bind_none, Option.getD_none, Option.getD_some, Int.zero_sub]
  exact congrFun (if_neg hfinite) ('\n' :: rest)

/-! ## Scalars -/

theorem text_of_whole (negative : Bool) {ds : List Char} (h : Whole ds) (rest : List Char) :
    text (minus negative ++ (ds ++ rest)) = none := by
  refine text_of_stops (stops_of_whole (fun c hc => ?_) rfl negative h rest)
  simp [isQuote, ne_of_isDigit hc (d := '"') rfl, ne_of_isDigit hc (d := '\'') rfl]

/-- No date and no time begins with a number that goes on with a point or ends. -/
theorem moment_of_whole (negative : Bool) {ds : List Char} (h : Whole ds) {c : Char}
    (hc : c.isDigit = false) (h1 : c ≠ '-') (h2 : c ≠ ':') (rest : List Char) :
    moment (minus negative ++ (ds ++ c :: rest)) = none := by
  cases negative
  · have hhead : ((ds ++ c :: rest).dropWhile Char.isDigit).head? = some c := by
      rw [List.dropWhile_append_of_pos h.1, List.dropWhile_cons_of_neg (by simp [hc])]
      rfl
    rw [minus_false, List.nil_append]
    exact moment_of_digits (by simpa [hhead]) (by simpa [hhead])
  · exact moment_of_stops ((stops_cons _ _ _).2 rfl)

theorem plainText_finite (negative : Bool) (m : Magnitude) :
    ∃ whole places, (Binary64.finite negative m).plainText.toList =
      minus negative ++ (whole ++ '.' :: places) ∧ Positional whole places ∧
        Binary64.ofDecimal negative (.ofPositional whole places) = .finite negative m := by
  obtain ⟨whole, places, htext, hform, hread⟩ := m.positional_shortest
  refine ⟨whole, places, ?_, hform, hread negative⟩
  rw [← htext]
  cases negative with
  | false => rfl
  | true => exact String.toList_append

/-- The text of a float is read as the float. -/
theorem scalar_plainText (x : Binary64) (rest : List Char) :
    scalar (x.plainText.toList ++ '\n' :: rest) = some (.float x, '\n' :: rest) := by
  cases x with
  | nan => rfl
  | infinite negative => cases negative <;> rfl
  | finite negative m =>
    obtain ⟨whole, places, hplain, hform, hread⟩ := plainText_finite negative m
    have hfloat := digitalFloat_positional negative hform rest (by simp [hread])
    have htext := text_of_whole negative hform.whole ('.' :: places ++ '\n' :: rest)
    have hmoment := moment_of_whole negative hform.whole (c := '.') rfl (by decide) (by decide)
      (places ++ '\n' :: rest)
    rw [← List.cons_append] at hmoment
    rw [hplain, List.append_assoc]
    rw [List.append_assoc] at hfloat ⊢
    simp only [scalar, float, orElse_apply, map_apply, bind_apply, htext, hmoment, hfloat, hread,
      Option.map_none, Option.bind_none, Option.none_or, Option.some_or, Option.map_some]

/-! ## Integers -/

theorem wholeDigits_of_line {ds : List Char} (h : Whole ds) (rest : List Char) :
    wholeDigits (ds ++ '\n' :: rest) = some (ds, '\n' :: rest) :=
  wholeDigits_append h ((stops_cons _ _ _).2 rfl)

/-- Digits at the end of a line are no float. -/
theorem float_of_whole {ds : List Char} (h : Whole ds) (rest : List Char) :
    float (ds ++ '\n' :: rest) = none := by
  have hsign := sign_minus false (stops_isSign_of_whole h ('\n' :: rest))
  have hwhole := wholeDigits_of_line h rest
  have hdigital : digitalFloat (ds ++ '\n' :: rest) = none := by
    rw [minus_false, List.nil_append] at hsign
    simp [digitalFloat, hsign, hwhole, fraction, exponent]
  have hnamed : namedFloat (ds ++ '\n' :: rest) = none := by
    obtain ⟨c, cs, rfl, hc⟩ := h.eq_cons
    rw [minus_false, List.nil_append] at hsign
    rw [namedFloat, bind_apply, hsign]
    simp [keyword, ne_of_isDigit hc (d := 'i') rfl, ne_of_isDigit hc (d := 'n') rfl]
  simp [float, hdigital, hnamed]

/-- No other base is meant by a zero at the end of a line, and none without a zero in front. -/
theorem basedInteger_of_whole {ds : List Char} (h : Whole ds) {mark : String} {d : Char}
    (hmark : mark.toList = ['0', d]) (hd : d ≠ '\n') (base : Nat) (isDigit : Char → Bool)
    (rest : List Char) : basedInteger mark base isDigit (ds ++ '\n' :: rest) = none := by
  obtain ⟨-, rfl | ⟨c, cs, rfl, hc⟩⟩ := h
  · simp [basedInteger, keyword, hmark, hd.symm]
  · simp [basedInteger, keyword, hmark, hc]

/-- The text of an integer is read as the integer, unless it is too large. -/
theorem scalar_toString {n : Nat} (hn : n ≤ maxInteger) (rest : List Char) :
    scalar ((toString n).toList ++ '\n' :: rest) = some (.integer n, '\n' :: rest) := by
  have h := whole_toDigits n
  rw [Nat.toString_eq_repr, Nat.toList_repr]
  have hinteger : integer (Nat.toDigits 10 n ++ '\n' :: rest) = some ((n : Int), '\n' :: rest) := by
    have hsign := sign_minus false (stops_isSign_of_whole h ('\n' :: rest))
    have hwhole := wholeDigits_of_line h rest
    have hx : basedInteger "0x" 16 isHexDigit _ = none :=
      basedInteger_of_whole h rfl (by decide) _ _ rest
    have ho : basedInteger "0o" 8 isOctalDigit _ = none :=
      basedInteger_of_whole h rfl (by decide) _ _ rest
    have hb : basedInteger "0b" 2 isBinaryDigit _ = none :=
      basedInteger_of_whole h rfl (by decide) _ _ rest
    have hrange : Int64.minValue.toInt ≤ (n : Int) ∧ (n : Int) ≤ Int64.maxValue.toInt :=
      ⟨Int.le_trans (by decide) (Int.natCast_nonneg n), Int.ofNat_le.2 hn⟩
    rw [minus_false, List.nil_append] at hsign
    have hdecimal : decimalInteger (Nat.toDigits 10 n ++ '\n' :: rest) =
        some ((n : Int), '\n' :: rest) := by
      simp only [decimalInteger, bind_apply, hsign, hwhole, Option.bind_some, ofDigits_toDigits,
        inRange, Bool.false_eq_true, if_false, if_pos hrange, pure_apply]
    rw [integer, orElse_apply, orElse_apply, orElse_apply, hx, ho, hb, hdecimal]
    rfl
  have htext := text_of_whole false h ('\n' :: rest)
  have hmoment := moment_of_whole false h (c := '\n') rfl (by decide) (by decide) rest
  rw [minus_false, List.nil_append] at htext hmoment
  simp only [scalar, orElse_apply, map_apply, bind_apply, htext, hmoment, float_of_whole h, hinteger,
    Option.map_none, Option.bind_none, Option.none_or, Option.some_or, Option.map_some]

/-- The value that a written number is. -/
def Scalar.value : Scalar → Value
  | integer n => .integer n
  | float x => .float x

/-- The text of a number is read as the number. -/
theorem value_text {s : Scalar} {t : String} (h : s.text? = some t) (depth : Nat)
    (rest : List Char) :
    value depth (t.toList ++ '\n' :: rest) = some (s.value, '\n' :: rest) := by
  have hscalar : scalar (t.toList ++ '\n' :: rest) = some (s.value, '\n' :: rest) := by
    cases s with
    | float x =>
      obtain rfl := Option.some.inj h
      exact scalar_plainText x rest
    | integer n =>
      rw [Scalar.text?] at h
      split at h
      · rename_i hn
        obtain rfl := Option.some.inj h
        exact scalar_toString hn rest
      · cases h
  cases depth with
  | zero => exact hscalar
  | succ depth => rw [value, orElse_apply, hscalar, Option.some_or]

/-- The text of a number begins with no blank. -/
theorem stops_blank_text {s : Scalar} {t : String} (h : s.text? = some t) (rest : List Char) :
    Stops (fun c => c = ' ' || c = '\t') (t.toList ++ rest) := by
  have hdigit : ∀ c : Char, c.isDigit → (decide (c = ' ') || decide (c = '\t')) = false := fun c hc => by
    simp [ne_of_isDigit hc (d := ' ') rfl, ne_of_isDigit hc (d := '\t') rfl]
  cases s with
  | float x =>
    obtain rfl := Option.some.inj h
    cases x with
    | nan => exact (stops_cons _ _ _).2 rfl
    | infinite negative => cases negative <;> exact (stops_cons _ _ _).2 rfl
    | finite negative m =>
      obtain ⟨whole, places, hplain, hform, -⟩ := plainText_finite negative m
      rw [hplain, List.append_assoc, List.append_assoc]
      exact stops_of_whole hdigit rfl negative hform.whole _
  | integer n =>
    rw [Scalar.text?] at h
    split at h
    · obtain rfl := Option.some.inj h
      rw [Nat.toString_eq_repr, Nat.toList_repr]
      exact stops_of_whole hdigit rfl false (whole_toDigits n) rest
    · cases h

end Orchestration.Toml
