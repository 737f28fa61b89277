import TagFilter.Proofs.Scanning.Stepwise

/-!
# Every step goes forward

A reader may take the steps of a cursor in any order. It may read a word in front of a blank, where
there is none, or go to the next line in the middle of a word; line and column then no longer say
where the cursor stands in its text. What holds all the same is that the cursor never goes back
(`Cursor.Onward`): the characters that it has passed are counted and are no longer ahead, lines are
only added, and columns are counted from one.

* `perform_onward`, `onward_afterAll` — one step, and any sequence of them;
* `perform_word_error_iff` — a word is missing only at a character that parts words or at the end of
  the text, and nothing is passed then. No other step fails (`exists_ok_of_ne_word`);
* `performAll_progress` — both, for the cursors that are reached in a text.
-/

namespace TagFilter

namespace Cursor

variable {c c' c'' : Cursor} {ch : Char} {chs others : List Char} {fault : Fault}

/-- The cursor `c'` stands in the same text as `c`, at the same place or behind it. -/
structure Onward (c c' : Cursor) : Prop where
  passed : ∃ chs, c.rest = chs ++ c'.rest ∧ c'.position = c.position + chs.length
  line : c.line ≤ c'.line
  column : 1 ≤ c.column → 1 ≤ c'.column

namespace Onward

theorem refl (c : Cursor) : Onward c c := ⟨⟨[], rfl, rfl⟩, Nat.le_refl _, id⟩

theorem trans (h : Onward c c') (h' : Onward c' c'') : Onward c c'' := by
  obtain ⟨chs, hrest, hposition⟩ := h.passed
  obtain ⟨others, hrest', hposition'⟩ := h'.passed
  refine ⟨⟨chs ++ others, ?_, ?_⟩, Nat.le_trans h.line h'.line, fun hcolumn => ?_⟩
  · rw [hrest, hrest', List.append_assoc]
  · rw [hposition', hposition, List.length_append, Nat.add_assoc]
  · exact h'.column (h.column hcolumn)

/-! ### One step -/

theorem newline (c : Cursor) : Onward c c.newline :=
  ⟨⟨[], rfl, rfl⟩, Nat.le_succ _, fun _ => Nat.le_refl 1⟩

/-- To pass a few characters of one line. -/
theorem past (h : c.rest = chs ++ others) : Onward c (c.past chs.length) := by
  refine ⟨⟨chs, ?_, rfl⟩, Nat.le_refl _, fun hcolumn => Nat.le_add_right_of_le hcolumn⟩
  rw [Cursor.past, h, List.drop_left]

theorem advance (c : Cursor) : Onward c c.advance := by
  obtain ⟨_ | ⟨ch, rest⟩, position, line, column⟩ := c
  · exact refl _
  · exact @past ⟨ch :: rest, position, line, column⟩ [ch] rest rfl

/-- **Blanks**, one after the other. -/
theorem skipFrom (rest : List Char) (position line column : Nat) :
    Onward ⟨rest, position, line, column⟩ (Cursor.skipFrom rest position line column) := by
  fun_induction Cursor.skipFrom rest position line column with
  | case1 rest position line column ih | case2 rest position line column ih =>
    exact (advance _).trans ih
  -- a line break is passed, and the next line begins
  | case3 column rest position line ih | case5 column rest position line _ ih =>
    exact ((advance _).trans (newline _)).trans ih
  | case4 column rest position line ih =>
    exact (((advance _).trans (advance _)).trans (newline _)).trans ih
  | case6 => exact refl _

theorem skip (c : Cursor) : Onward c c.skip := skipFrom c.rest c.position c.line c.column

end Onward

/-! ### Words -/

/-- **A word is there or it is not.** At the end of the text there is none, nor is there one in
front of a character that parts words. Any other character begins a word, and the word is passed. -/
theorem word_cases (c : Cursor) :
    (c.rest = [] ∧ c.word = (.error .endOfText, c)) ∨
      (∃ ch others, c.rest = ch :: others ∧ isBoundary ch = true ∧
        c.word = (.error (.unexpected ch c.position c.line c.column), c)) ∨
      ∃ ch others t, c.rest = ch :: others ∧ isBoundary ch = false ∧
        c.word = (.ok t, c.past c.wordAhead.length) := by
  rcases hrest : c.rest with _ | ⟨ch, others⟩
  · exact .inl ⟨rfl, by simp [word, wordAhead, hrest]⟩
  · by_cases hch : isBoundary ch = true
    · exact .inr (.inl ⟨ch, others, rfl, hch, by simp [word, wordAhead, hrest, hch]⟩)
    · have hword : c.wordAhead = ch :: others.takeWhile fun ch => !isBoundary ch := by
        simp [wordAhead, hrest, hch]
      have hletter : isBoundary ch = false := by simpa using hch
      let t := c.tokenHere (kindOfWord c.wordAhead) (String.ofList c.wordAhead)
      refine .inr (.inr ⟨ch, others, t, rfl, hletter, ?_⟩)
      simp [word, t, hword]

/-- **When there is no word to read.** -/
theorem perform_word_error_iff (c : Cursor) (fault : Fault) :
    (c.perform .word).1 = .error fault ↔ (c.rest = [] ∧ fault = .endOfText) ∨
      ∃ ch ∈ c.rest.head?, isBoundary ch = true ∧
        fault = .unexpected ch c.position c.line c.column := by
  rcases c.word_cases with ⟨hrest, hword⟩ | ⟨ch, others, hrest, hch, hword⟩ |
    ⟨ch, others, t, hrest, hch, hword⟩
  · simpa [perform, Except.map, hrest, hword] using eq_comm
  · simpa [perform, Except.map, hrest, hword, hch] using eq_comm
  · simp [perform, Except.map, hrest, hword, hch]

/-- Where there is no word, nothing is passed. -/
theorem perform_word_of_error (h : (c.perform .word).1 = .error fault) :
    (c.perform .word).2 = c := by
  rcases c.word_cases with ⟨-, hword⟩ | ⟨_, _, -, -, hword⟩ | ⟨_, _, _, -, -, hword⟩
  · rw [perform, hword]
  · rw [perform, hword]
  · simp [perform, Except.map, hword] at h

/-! ### Any steps -/

theorem Onward.word (c : Cursor) : Onward c c.word.2 := by
  rcases c.word_cases with ⟨-, hword⟩ | ⟨_, _, -, -, hword⟩ | ⟨_, _, _, -, -, hword⟩
  · rw [hword]
    exact refl c
  · rw [hword]
    exact refl c
  · rw [hword]
    exact past (List.takeWhile_append_dropWhile ..).symm

/-- One token: behind the blanks a lexeme is passed, or nothing. -/
theorem Onward.next (c : Cursor) : Onward c c.next.2 := by
  by_cases hend : c.rest.dropWhile isBlank = []
  · rw [next_of_blank hend]
    exact skip c
  · obtain ⟨kind, chs, rest, hsplit, hlexeme⟩ :=
      exists_lexeme hend (head_dropWhile_not isBlank c.rest)
    rw [next_of_lexeme hsplit hlexeme]
    exact (skip c).trans (past (c.skip_rest.trans hsplit))

/-- All tokens, by induction on the reading. -/
theorem Onward.tokens (c : Cursor) : Onward c c.tokens.2 := by
  fun_induction Cursor.tokens c with
  | case1 c fault c' hnext | case2 c t c' hnext _ =>
    have hone := Onward.next c
    rwa [hnext] at hone
  | case3 c t c' hnext _ others last hothers ih =>
    have hone := Onward.next c
    rw [hnext] at hone
    rw [hothers] at ih
    exact hone.trans ih

/-- **Every step goes forward**, from any cursor. -/
theorem perform_onward (c : Cursor) (s : Step) : Onward c (c.perform s).2 := by
  cases s with
  | next => exact .next c
  | word => exact .word c
  | tokens => exact .tokens c
  | skip => exact .skip c
  | advance => exact .advance c
  | newline => exact .newline c

/-- **So does every sequence of steps.** -/
theorem onward_afterAll (c : Cursor) (before : List Step) : Onward c (c.afterAll before) := by
  induction before generalizing c with
  | nil => exact .refl c
  | cons s before ih => exact (c.perform_onward s).trans (ih _)

/-- **Only a word can be missing.** -/
theorem exists_ok_of_ne_word {s : Step} (h : s ≠ .word) (c : Cursor) :
    ∃ answer, (c.perform s).1 = .ok answer := by
  cases s with
  | word => exact absurd rfl h
  | next =>
    rcases c.next_cases with hnext | ⟨t, c', hnext, -⟩
    · exact ⟨.token (c.skip.tokenHere .eof ""), by rw [perform, hnext]; rfl⟩
    · exact ⟨.token t, by rw [perform, hnext]; rfl⟩
  | tokens =>
    obtain ⟨ts, hts, -⟩ := c.tokens_scans
    exact ⟨.tokens ts, by rw [perform, hts]; rfl⟩
  | skip | advance | newline => exact ⟨.moved, rfl⟩

/-! ### In a text -/

/-- A cursor that is reached in a text stands at one of its places, and has counted from one. -/
theorem Onward.of_start {text : String} (h : Onward (start text) c) :
    c.rest = text.toList.drop c.position ∧ c.position ≤ text.length ∧
      1 ≤ c.line ∧ 1 ≤ c.column := by
  obtain ⟨chs, hrest, hposition⟩ := h.passed
  have htext : text.toList = chs ++ c.rest := hrest
  have hplace : c.position = chs.length := hposition.trans (Nat.zero_add _)
  refine ⟨?_, ?_, h.line, h.column (Nat.le_refl 1)⟩
  · rw [hplace, htext, List.drop_left]
  · rw [hplace, ← String.length_toList, htext, List.length_append]
    exact Nat.le_add_right ..

/-- When there is no word to read, in terms of the text. -/
theorem Onward.word_error_iff {text : String} (h : Onward (start text) c) (fault : Fault) :
    (c.perform .word).1 = .error fault ↔ (c.position = text.length ∧ fault = .endOfText) ∨
      ∃ ch, text.toList[c.position]? = some ch ∧ (isBlank ch = true ∨ isParen ch = true) ∧
        fault = .unexpected ch c.position c.line c.column := by
  obtain ⟨hrest, hle, -, -⟩ := h.of_start
  -- what is ahead of the cursor is read off the text at its position
  have hend : c.rest = [] ↔ c.position = text.length := by
    rw [hrest, List.drop_eq_nil_iff, String.length_toList]
    exact ⟨Nat.le_antisymm hle, fun heq => Nat.le_of_eq heq.symm⟩
  have hhead : c.rest.head? = text.toList[c.position]? := by rw [hrest, List.head?_drop]
  rw [perform_word_error_iff, hend, hhead]
  simp only [Option.mem_def, isBoundary, Bool.or_eq_true]

/-- **Whatever steps are taken in a text**, in any order and with faults in between, the next step
goes forward and stays in the text. Lines and columns are counted from one, and no line is taken
back. No step fails but the reading of a word. That fails at the end of the text, and at a blank or
a parenthesis, which it names together with the place as it was counted; the cursor has not moved
then. Blanks that have been skipped are not there to be skipped again. -/
theorem performAll_progress (text : String) (before : List Step) (s : Step) (after : List Step) :
    let c := (start text).afterAll before
    ∃ answer c',
      ((start text).performAll (before ++ s :: after))[before.length]? = some (answer, c') ∧
      (c.rest = text.toList.drop c.position ∧ c'.rest = text.toList.drop c'.position ∧
        c.position ≤ c'.position ∧ c'.position ≤ text.length) ∧
      (1 ≤ c.line ∧ c.line ≤ c'.line ∧ 1 ≤ c.column ∧ 1 ≤ c'.column) ∧
      (s ≠ .word → ∃ a, answer = .ok a) ∧
      (s = .word → ∀ fault, (answer = .error fault → c' = c) ∧
        (answer = .error fault ↔ (c.position = text.length ∧ fault = .endOfText) ∨
          ∃ ch, text.toList[c.position]? = some ch ∧ (isBlank ch = true ∨ isParen ch = true) ∧
            fault = .unexpected ch c.position c.line c.column)) ∧
      (s = .skip → c'.skip = c') := by
  intro c
  have hreached : Onward (start text) c := onward_afterAll _ before
  have hstep := c.perform_onward s
  -- both cursors are reached in the text, the second one by one step more
  obtain ⟨hrest, -, hline, hcolumn⟩ := hreached.of_start
  obtain ⟨hrest', hle', -, hcolumn'⟩ := (hreached.trans hstep).of_start
  have hforward : c.position ≤ (c.perform s).2.position := by
    obtain ⟨chs, -, hposition⟩ := hstep.passed
    exact hposition ▸ Nat.le_add_right ..
  refine ⟨(c.perform s).1, (c.perform s).2, getElem?_performAll _ before s after,
    ⟨hrest, hrest', hforward, hle'⟩, ⟨hline, hstep.line, hcolumn, hcolumn'⟩,
    fun hs => exists_ok_of_ne_word hs c, ?_, ?_⟩
  · rintro rfl fault
    exact ⟨perform_word_of_error, hreached.word_error_iff fault⟩
  · rintro rfl
    exact c.skip_skip

end Cursor

end TagFilter
