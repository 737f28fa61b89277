import TagFilter.Lexicon

/-!
# Reading tokens off a text

A `Cursor` stands in a text: it holds the characters still ahead and the place it has reached. The
steps move it forward, and the reading steps answer a token.

* `Cursor.advance`, `Cursor.newline`, `Cursor.skip` — over one character, to the next line, over
  all blanks;
* `Cursor.word`, `Cursor.next`, `Cursor.tokens` — one word, one token of any kind, all tokens up to
  and including the end mark;
* `tokenize` — the tokens of a whole text.

A reading step answers with the cursor after it also when it fails, since a reader may go on from
there. `Cursor.next_shorter` says why reading comes to an end: every token but the end mark takes
at least one character.
-/

namespace TagFilter

/-- A place in a text, with the characters still ahead of it. -/
structure Cursor where
  /-- The characters still ahead. -/
  rest : List Char
  /-- The number of characters passed. -/
  position : Nat
  /-- The line, counted from one. -/
  line : Nat
  /-- The column in that line, counted from one. -/
  column : Nat
  deriving DecidableEq, Repr

namespace Cursor

/-- The cursor before the first character of a text. -/
def start (text : String) : Cursor := ⟨text.toList, 0, 1, 1⟩

/-- Why no word can be read. -/
inductive Fault where
  /-- No character is left. -/
  | endOfText
  /-- The character ahead cannot begin a word. -/
  | unexpected (found : Char) (position line column : Nat)
  deriving DecidableEq, Repr

/-- Passes one character; at the end of the text the cursor stays. -/
def advance : Cursor → Cursor
  | ⟨[], position, line, column⟩ => ⟨[], position, line, column⟩
  | ⟨_ :: rest, position, line, column⟩ => ⟨rest, position + 1, line, column + 1⟩

/-- Goes to the first column of the next line. -/
def newline (c : Cursor) : Cursor := { c with line := c.line + 1, column := 1 }

/-- Passes `n` characters of one line. -/
def past (c : Cursor) (n : Nat) : Cursor :=
  { c with rest := c.rest.drop n, position := c.position + n, column := c.column + n }

/-- The cursor after the blanks at the front of `rest`. A line feed, a carriage return, and the two
together in the other order each end one line. -/
def skipFrom : (rest : List Char) → (position line column : Nat) → Cursor
  | ' ' :: rest, position, line, column => skipFrom rest (position + 1) line (column + 1)
  | '\t' :: rest, position, line, column => skipFrom rest (position + 1) line (column + 1)
  | '\n' :: rest, position, line, _ => skipFrom rest (position + 1) (line + 1) 1
  -- the two characters together are one line break
  | '\r' :: '\n' :: rest, position, line, _ => skipFrom rest (position + 2) (line + 1) 1
  | '\r' :: rest, position, line, _ => skipFrom rest (position + 1) (line + 1) 1
  | rest, position, line, column => ⟨rest, position, line, column⟩

/-- Passes all blanks ahead. -/
def skip (c : Cursor) : Cursor := skipFrom c.rest c.position c.line c.column

/-- The token that begins here. -/
def tokenHere (c : Cursor) (kind : Token.Kind) (value : String) : Token :=
  ⟨kind, value, c.position, c.line, c.column⟩

/-- The longest word ahead; it may be empty. -/
def wordAhead (c : Cursor) : List Char := c.rest.takeWhile fun ch => !isBoundary ch

/-- Reads the longest word ahead. It has to have a letter: the end of the text is a fault, and so is
a character that parts words, and both leave the cursor where it was. -/
def word (c : Cursor) : Except Fault Token × Cursor :=
  match c.wordAhead with
  | [] =>
    -- the next character parts words, or there is none
    match c.rest with
    | [] => (.error .endOfText, c)
    | found :: _ => (.error (.unexpected found c.position c.line c.column), c)
  | ch :: chs =>
    (.ok (c.tokenHere (kindOfWord (ch :: chs)) (String.ofList (ch :: chs))),
      c.past (chs.length + 1))

/-- Reads one token: blanks are passed, then a parenthesis, a word or the end mark follows. At the
end of the text the end mark is read again and again. -/
def next (c : Cursor) : Except Fault Token × Cursor :=
  let c := c.skip
  -- what is ahead now is no blank
  match c.rest with
  | [] => (.ok (c.tokenHere .eof ""), c)
  | '(' :: _ => (.ok (c.tokenHere .leftParen "("), c.advance)
  | ')' :: _ => (.ok (c.tokenHere .rightParen ")"), c.advance)
  | _ => c.word

/-! ### Reading comes to an end -/

theorem skipFrom_length_le (rest : List Char) (position line column : Nat) :
    (skipFrom rest position line column).rest.length ≤ rest.length := by
  fun_induction skipFrom rest position line column <;> simp only [List.length_cons] at * <;> omega

/-- Passing blanks leaves no more than there was. -/
theorem skip_length_le (c : Cursor) : c.skip.rest.length ≤ c.rest.length :=
  skipFrom_length_le ..

/-- A word takes at least one character. -/
theorem word_shorter {c c' : Cursor} {t : Token} (h : c.word = (.ok t, c')) :
    c'.rest.length < c.rest.length := by
  unfold word at h
  split at h
  · split at h <;> simp at h
  · next ch chs hw =>
    have hne : c.rest ≠ [] := by
      rintro hnil
      simp [wordAhead, hnil] at hw
    obtain ⟨-, rfl⟩ := Prod.mk.inj h
    have : 0 < c.rest.length := List.length_pos_iff.2 hne
    simp only [past, List.length_drop]
    omega

/-- **Every token but the end mark takes at least one character.** -/
theorem next_shorter {c c' : Cursor} {t : Token} (h : c.next = (.ok t, c'))
    (ht : t.kind ≠ .eof) : c'.rest.length < c.rest.length := by
  have hle := skip_length_le c
  unfold next at h
  generalize hd : c.skip = d at h hle
  obtain ⟨rest, position, line, column⟩ := d
  dsimp only at h
  split at h
  · obtain ⟨hk, -⟩ := Prod.mk.inj h
    cases hk
    exact absurd rfl ht
  · obtain ⟨-, rfl⟩ := Prod.mk.inj h
    simp only [advance, List.length_cons] at *
    omega
  · obtain ⟨-, rfl⟩ := Prod.mk.inj h
    simp only [advance, List.length_cons] at *
    omega
  · exact Nat.lt_of_lt_of_le (word_shorter h) hle

/-- Reads all tokens up to and including the end mark. -/
def tokens (c : Cursor) : Except Fault (List Token) × Cursor :=
  match _h : c.next with
  | (.error fault, c') => (.error fault, c')
  | (.ok t, c') =>
    if _ht : t.kind = .eof then
      (.ok [t], c')
    else
      let (others, last) := c'.tokens
      (others.map (t :: ·), last)
termination_by c.rest.length
decreasing_by exact next_shorter _h _ht

end Cursor

/-- The tokens of a text, ending with the end mark. -/
def tokenize (text : String) : Except Cursor.Fault (List Token) := (Cursor.start text).tokens.1

end TagFilter
