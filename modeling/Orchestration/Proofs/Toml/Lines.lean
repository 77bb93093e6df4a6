import Orchestration.Proofs.Toml.Numbers

/-!
# Written documents read back

What a rendered document says is one header for each section and one assignment for each key that has
a value. The relation `Says` describes such documents; the printer only makes documents that it
describes, and the reader finds in them what it says.
-/

namespace Orchestration.Toml

open Text Text.Reader

/-! ## Names -/

/-- A name that needs no quotes. -/
def Bare (name : String) : Prop := name.toList ≠ [] ∧ ∀ c ∈ name.toList, isBareKeyChar c

instance (name : String) : Decidable (Bare name) :=
  decidable_of_iff (name.toList.isEmpty = false ∧ name.toList.all isBareKeyChar) <|
    and_congr List.isEmpty_eq_false_iff List.all_eq_true

theorem Bare.eq_cons {name : String} (h : Bare name) :
    ∃ c cs, name.toList = c :: cs ∧ isBareKeyChar c := by
  obtain ⟨c, cs, hcs⟩ := List.exists_cons_of_ne_nil h.1
  exact ⟨c, cs, hcs, h.2 c (hcs ▸ List.mem_cons_self)⟩

theorem ne_of_isBareKeyChar {c d : Char} (hc : isBareKeyChar c) (hd : isBareKeyChar d = false) :
    c ≠ d := by
  rintro rfl
  rw [hc] at hd
  cases hd

/-- Whether a character is blank within a line. -/
def isGap (c : Char) : Bool := c = ' ' || c = '\t'

theorem blanks_append {gap rest : List Char} (hgap : ∀ c ∈ gap, isGap c) (hrest : Stops isGap rest) :
    blanks (gap ++ rest) = some ((), rest) := by
  have := takeWhile_append hgap hrest
  unfold isGap at this
  simp [blanks, this]

theorem blanks_of_stops {rest : List Char} (hrest : Stops isGap rest) :
    blanks rest = some ((), rest) :=
  blanks_append (List.forall_mem_nil _) hrest

theorem simpleKey_append {name : String} (h : Bare name) {rest : List Char}
    (hrest : Stops isBareKeyChar rest) : simpleKey (name.toList ++ rest) = some (name, rest) := by
  have htake := takeWhile1_append h.2 h.1 hrest
  obtain ⟨c, cs, hcs, hc⟩ := h.eq_cons
  have h1 : c ≠ '"' := ne_of_isBareKeyChar hc rfl
  have h2 : c ≠ '\'' := ne_of_isBareKeyChar hc rfl
  have hbasic : basicText (name.toList ++ rest) = none := by simp [basicText, hcs, h1]
  have hliteral : literalText (name.toList ++ rest) = none := by simp [literalText, hcs, h2]
  simp only [simpleKey, orElse_apply, hbasic, hliteral, bind_apply, htake, Option.bind_some,
    pure_apply, String.ofList_toList, Option.none_or]

/-- A part of a key, with the blanks around it. -/
def keyPart : Reader String := do blanks; let part ← simpleKey; blanks; return part

theorem keyPart_append {name : String} (h : Bare name) {gap rest : List Char}
    (hgap : ∀ c ∈ gap, isGap c) (hrest : Stops isGap rest)
    (hstop : Stops isBareKeyChar (gap ++ rest)) :
    keyPart (name.toList ++ (gap ++ rest)) = some (name, rest) := by
  have hfront : Stops isGap (name.toList ++ (gap ++ rest)) := by
    obtain ⟨c, cs, hcs, hc⟩ := h.eq_cons
    rw [hcs]
    simp [isGap, ne_of_isBareKeyChar hc (d := ' ') rfl, ne_of_isBareKeyChar hc (d := '\t') rfl]
  simp only [keyPart, bind_apply, blanks_of_stops hfront, Option.bind_some, simpleKey_append h hstop,
    blanks_append hgap hrest, pure_apply]

/-- The names of a path with points between them. -/
def dotted : List String → List Char
  | [] => []
  | name :: names => name.toList ++ names.flatMap fun name => '.' :: name.toList

/-- Whether a key may go on with a character. -/
def continuesKey (c : Char) : Bool := isBareKeyChar c || isGap c || c = '.'

theorem stops_of_continuesKey {rest : List Char} (h : Stops continuesKey rest) :
    Stops isBareKeyChar rest ∧ Stops isGap rest ∧ Stops (· = '.') rest := by
  cases rest with
  | nil => simp
  | cons c rest =>
    rw [stops_cons, continuesKey, Bool.or_eq_false_iff, Bool.or_eq_false_iff] at h
    simp [h.1.1, h.1.2, of_decide_eq_false h.2]

theorem dot_of_stops {rest : List Char} (h : Stops (· = '.') rest) :
    (char '.' *> keyPart) rest = none := by
  cases rest with
  | nil => rfl
  | cons c rest =>
    have hc : c ≠ '.' := of_decide_eq_false ((stops_cons _ c rest).1 h)
    simp [hc]

/-- What may stand behind a part of a key without blanks. -/
def EndsPart (tail : List Char) : Prop := Stops isBareKeyChar tail ∧ Stops isGap tail

theorem endsPart_dot (tail : List Char) : EndsPart ('.' :: tail) :=
  ⟨(stops_cons _ _ _).2 rfl, (stops_cons _ _ _).2 rfl⟩

theorem keyPart_of_endsPart {name : String} (h : Bare name) {tail : List Char}
    (htail : EndsPart tail) : keyPart (name.toList ++ tail) = some (name, tail) := by
  have hpart := @keyPart_append name h [] tail (List.forall_mem_nil _) htail.2
  rw [List.nil_append] at hpart
  exact hpart htail.1

theorem many_parts {names : List String} (h : ∀ n ∈ names, Bare n) {rest : List Char}
    (hrest : Stops continuesKey rest) :
    many (char '.' *> keyPart) (names.flatMap (fun n => '.' :: n.toList) ++ rest) =
      some (names, rest) := by
  obtain ⟨hbare, hgap, hdot⟩ := stops_of_continuesKey hrest
  have hread : ∀ n ∈ names, ∀ tail, EndsPart tail →
      (char '.' *> keyPart) ('.' :: n.toList ++ tail) = some (n, tail) := by
    intro n hn tail htail
    rw [seqRight_apply, List.cons_append, char_cons, if_pos rfl, Option.bind_some]
    exact keyPart_of_endsPart (h n hn) htail
  have hmany := repeated_pieces EndsPart hread
    (fun n _ => ⟨List.cons_ne_nil _ _, fun tail _ => endsPart_dot _⟩) ⟨hbare, hgap⟩
    (dot_of_stops hdot)
  rw [many, hmany, List.map_id']

/-- The names of a path are read up to what ends it. -/
theorem key_dotted {name : String} {names : List String} (h : ∀ n ∈ name :: names, Bare n)
    (hlen : (name :: names).length ≤ maxDepth) {rest : List Char} (hrest : Stops continuesKey rest) :
    key (dotted (name :: names) ++ rest) =
      some (((name :: names).dropLast, (name :: names).getLastD ""), rest) := by
  have hbehind : EndsPart (names.flatMap (fun n => '.' :: n.toList) ++ rest) := by
    cases names with
    | nil => exact ⟨(stops_of_continuesKey hrest).1, (stops_of_continuesKey hrest).2.1⟩
    | cons n names => exact endsPart_dot _
  have hfirst := keyPart_of_endsPart (h name List.mem_cons_self) hbehind
  have hmany := many_parts (fun n hn => h n (List.mem_cons_of_mem _ hn)) hrest
  have hparts : separated keyPart (char '.') (dotted (name :: names) ++ rest) =
      some (name :: names, rest) := by
    rw [separated, bind_apply, dotted, List.append_assoc, hfirst, Option.bind_some, bind_apply, hmany]
    rfl
  change ((separated keyPart (char '.')) >>= _) _ = _
  rw [bind_apply, hparts, Option.bind_some]
  exact congrFun (if_pos hlen) rest

/-- A single name is read up to the equals sign. -/
theorem key_before_equals {name : String} (h : Bare name) (rest : List Char) :
    key (name.toList ++ ' ' :: '=' :: rest) = some (([], name), '=' :: rest) := by
  have hpart := @keyPart_append name h [' '] ('=' :: rest) (by simp [isGap])
    ((stops_cons _ _ _).2 rfl) ((stops_cons _ _ _).2 rfl)
  have hnone : repeated (char '.' *> keyPart) ('=' :: rest) = ([], '=' :: rest) :=
    repeated_of_none (dot_of_stops ((stops_cons _ _ _).2 rfl))
  change ((separated keyPart (char '.')) >>= _) _ = _
  rw [bind_apply, separated, bind_apply, ← List.singleton_append, hpart, Option.bind_some, bind_apply,
    many, hnone]
  rfl

/-! ## Lines -/

theorem trailing_line (rest : List Char) : trailing ('\n' :: rest) = some ((), rest) := by
  have hblanks : blanks ('\n' :: rest) = some ((), '\n' :: rest) :=
    blanks_of_stops ((stops_cons _ _ _).2 rfl)
  simp [trailing, hblanks, comment, lineEnd, newline]

theorem line_empty (rest : List Char) : line ('\n' :: rest) = some (none, rest) := by
  simp [line, newline]

/-- The line that opens the table at a path. -/
def headerOf (name : String) (names : List String) : Line :=
  .header (name :: names).dropLast ((name :: names).getLastD "")

theorem line_heading {name : String} {names : List String} (h : ∀ n ∈ name :: names, Bare n)
    (hlen : (name :: names).length ≤ maxDepth) (rest : List Char) :
    line ('[' :: (dotted (name :: names) ++ ']' :: '\n' :: rest)) =
      some (some (headerOf name names), rest) := by
  have hends : Stops continuesKey (']' :: '\n' :: rest) := (stops_cons _ _ _).2 rfl
  have hkey := key_dotted h hlen hends
  have helement : elementLine ('[' :: (dotted (name :: names) ++ ']' :: '\n' :: rest)) = none := by
    obtain ⟨c, cs, hcs, hc⟩ := (h name List.mem_cons_self).eq_cons
    simp [elementLine, keyword, dotted, hcs, ne_of_isBareKeyChar hc (d := '[') rfl]
  have hheader : headerLine ('[' :: (dotted (name :: names) ++ ']' :: '\n' :: rest)) =
      some (headerOf name names, rest) := by
    rw [headerLine, bind_apply, char_cons, if_pos rfl, Option.bind_some, bind_apply, hkey]
    simp [trailing_line, headerOf]
  have hline : line ('[' :: (dotted (name :: names) ++ ']' :: '\n' :: rest)) =
      (some <$> (elementLine <|> headerLine) : Reader (Option Line))
        ('[' :: (dotted (name :: names) ++ ']' :: '\n' :: rest)) :=
    rfl
  rw [hline, map_apply, orElse_apply, helement, hheader]
  rfl

/-- A line that opens like a name is an assignment. -/
theorem line_of_bare {c : Char} (hc : isBareKeyChar c) (cs : List Char) :
    line (c :: cs) = (some <$> assignmentLine : Reader (Option Line)) (c :: cs) := by
  rw [line, bind_apply, peek_apply, Option.bind_some]
  generalize hfirst : (c :: cs).head? = first
  refine congrFun ?_ _
  dsimp only
  have hne {d : Char} (hd : isBareKeyChar d = false) : first ≠ some d := by
    rw [← hfirst, List.head?_cons]
    exact fun heq => ne_of_isBareKeyChar hc hd (Option.some.inj heq)
  split
  · exact absurd rfl (hne rfl)
  · exact absurd rfl (hne rfl)
  · exact absurd rfl (hne rfl)
  · exact absurd rfl (hne rfl)
  · rfl

theorem line_entry {name : String} (h : Bare name) {v : Scalar} {t : String}
    (ht : v.text? = some t) (rest : List Char) :
    line (name.toList ++ ' ' :: '=' :: ' ' :: (t.toList ++ '\n' :: rest)) =
      some (some (.assignment [] name v.value), rest) := by
  have hkey := key_before_equals h (' ' :: (t.toList ++ '\n' :: rest))
  have hvalue := value_text ht maxDepth rest
  have hblanks : blanks (' ' :: (t.toList ++ '\n' :: rest)) = some ((), t.toList ++ '\n' :: rest) :=
    @blanks_append [' '] _ (by simp [isGap]) (stops_blank_text ht _)
  have hassignment :
      assignmentLine (name.toList ++ ' ' :: '=' :: ' ' :: (t.toList ++ '\n' :: rest)) =
        some (.assignment [] name v.value, rest) := by
    rw [assignmentLine, bind_apply, keyValue, bind_apply, hkey, Option.bind_some, bind_apply, char_cons,
      if_pos rfl, Option.bind_some, bind_apply, hblanks, Option.bind_some, bind_apply, hvalue]
    simp [trailing_line]
  obtain ⟨c, cs, hcs, hc⟩ := h.eq_cons
  rw [hcs, List.cons_append] at hassignment ⊢
  rw [line_of_bare hc, map_apply, hassignment]
  rfl

/-! ## Documents -/

/-- What a document of headers, assignments and empty lines says. -/
inductive Says : List Char → List Line → Prop
  | nothing : Says [] []
  | empty {cs : List Char} {ls : List Line} (h : Says cs ls) : Says ('\n' :: cs) ls
  | heading {name : String} {names : List String} {cs : List Char} {ls : List Line}
      (hnames : ∀ n ∈ name :: names, Bare n) (hlen : (name :: names).length ≤ maxDepth)
      (h : Says cs ls) :
      Says ('[' :: (dotted (name :: names) ++ ']' :: '\n' :: cs)) (headerOf name names :: ls)
  | entry {name : String} {v : Scalar} {t : String} {cs : List Char} {ls : List Line}
      (hname : Bare name) (ht : v.text? = some t) (h : Says cs ls) :
      Says (name.toList ++ ' ' :: '=' :: ' ' :: (t.toList ++ '\n' :: cs))
        (.assignment [] name v.value :: ls)

theorem Says.append {cs ds : List Char} {ls ms : List Line} (h : Says cs ls) (h' : Says ds ms) :
    Says (cs ++ ds) (ls ++ ms) := by
  induction h with
  | nothing => exact h'
  | empty _ ih => exact .empty ih
  | heading hnames hlen _ ih =>
    simpa using Says.heading hnames hlen ih
  | entry hname ht _ ih =>
    simpa using Says.entry hname ht ih

/-- Neither a blank nor a mark of the byte order. -/
def opensLine (c : Char) : Bool := isGap c || c = '\ufeff'

theorem Says.stops {cs : List Char} {ls : List Line} (h : Says cs ls) : Stops opensLine cs := by
  cases h with
  | nothing => exact stops_nil _
  | empty => exact (stops_cons _ _ _).2 rfl
  | heading => exact (stops_cons _ _ _).2 rfl
  | entry hname =>
    obtain ⟨c, cs, hcs, hc⟩ := hname.eq_cons
    rw [hcs]
    simp [opensLine, isGap, ne_of_isBareKeyChar hc (d := ' ') rfl,
      ne_of_isBareKeyChar hc (d := '\t') rfl, ne_of_isBareKeyChar hc (d := '\ufeff') rfl]

theorem Says.blanks {cs : List Char} {ls : List Line} (h : Says cs ls) :
    Toml.blanks cs = some ((), cs) := by
  refine blanks_of_stops fun c hc => ?_
  exact (Bool.or_eq_false_iff.1 (h.stops c hc)).1

/-- A line of a document, with what blanks the next one begins with. -/
def documentLine : Reader (Option Line) := do let l ← line; blanks; return l

theorem documentLine_of_line {cs rest : List Char} {l : Option Line} {ls : List Line}
    (h : line cs = some (l, rest)) (hrest : Says rest ls) :
    documentLine cs = some (l, rest) := by
  rw [documentLine, bind_apply, h, Option.bind_some, bind_apply, hrest.blanks]
  rfl

theorem Says.repeated {cs : List Char} {ls : List Line} (h : Says cs ls) :
    ∃ found, Reader.repeated documentLine cs = (found, []) ∧ found.filterMap id = ls := by
  -- each line is read, and the rest after it is what the induction is on
  have step {cs rest : List Char} {l : Option Line} {ls : List Line}
      (hline : line cs = some (l, rest)) (hrest : Says rest ls) (hlt : rest.length < cs.length)
      (ih : ∃ found, Reader.repeated documentLine rest = (found, []) ∧ found.filterMap id = ls) :
      ∃ found, Reader.repeated documentLine cs = (found, []) ∧
        found.filterMap id = l.toList ++ ls := by
    obtain ⟨found, hfound, rfl⟩ := ih
    refine ⟨l :: found, ?_, ?_⟩
    · rw [repeated_of_some (documentLine_of_line hline hrest) hlt, hfound]
    · cases l <;> rfl
  induction h with
  | nothing => exact ⟨[], repeated_of_none rfl, rfl⟩
  | empty h ih => exact step (line_empty _) h (by simp) ih
  | heading hnames hlen h ih => exact step (line_heading hnames hlen _) h (by simp; omega) ih
  | entry hname ht h ih => exact step (line_entry hname ht _) h (by simp; omega) ih

/-- A document that says something is read as what it says. -/
theorem Says.lines {cs : List Char} {ls : List Line} (h : Says cs ls) :
    Toml.lines.whole cs = some ls := by
  obtain ⟨found, hfound, rfl⟩ := h.repeated
  have hmark : char '\ufeff' cs = none := by
    cases cs with
    | nil => rfl
    | cons c cs =>
      have := (Bool.or_eq_false_iff.1 ((stops_cons _ c cs).1 h.stops)).2
      simp [of_decide_eq_false this]
  have hlines : Toml.lines cs = some (found.filterMap id, []) := by
    change (optional (char '\ufeff') >>= _) cs = _
    rw [bind_apply, optional_apply, hmark, Option.elim, Option.bind_some, bind_apply, h.blanks,
      Option.bind_some, bind_apply, ← documentLine, many, hfound]
    rfl
  rw [whole, hlines]

end Orchestration.Toml
