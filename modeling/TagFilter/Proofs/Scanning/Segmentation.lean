import TagFilter.Cursor

/-!
# How a text falls into tokens

A text is a sequence of lexemes with blanks between them, and its tokens are these lexemes.

* `Lexeme` — the characters of one token, in front of what comes after them. A parenthesis is a
  lexeme by itself; a word is one only up to the next character that parts words, or to the end;
* `Scans` — the tokens are the lexemes of a text, each with its text and its place;
* `Cursor.tokens_scans` — reading gives such tokens, whatever the text is, and never fails;
* `Scans.unique` — a text has no other tokens, and where the text begins only moves their places.

Lines and columns play no part here: they depend on the blanks and not on the segmentation.
-/

namespace TagFilter

/-- `chs` are the characters of one token of the given kind, in front of `rest`. -/
inductive Lexeme : Token.Kind → List Char → List Char → Prop where
  | leftParen (rest : List Char) : Lexeme .leftParen ['('] rest
  | rightParen (rest : List Char) : Lexeme .rightParen [')'] rest
  /-- A word is as long as it can be. -/
  | word {chs rest : List Char} (hne : chs ≠ []) (hchs : ∀ c ∈ chs, isBoundary c = false)
    (hrest : ∀ c ∈ rest.head?, isBoundary c = true) : Lexeme (kindOfWord chs) chs rest

/-- `Scans start text ts`: the tokens `ts` are those of `text`, if `start` characters stand before
it. -/
inductive Scans : Nat → List Char → List Token → Prop where
  | done {start : Nat} {blanks : List Char} {t : Token} (hblanks : ∀ c ∈ blanks, isBlank c = true)
    (hkind : t.kind = .eof) (hvalue : t.value = "")
    (hposition : t.position = ↑(start + blanks.length)) : Scans start blanks [t]
  | token {start : Nat} {blanks chs rest : List Char} {t : Token} {ts : List Token}
    (hblanks : ∀ c ∈ blanks, isBlank c = true) (hlexeme : Lexeme t.kind chs rest)
    (hvalue : t.value = String.ofList chs) (hposition : t.position = ↑(start + blanks.length))
    (others : Scans (start + blanks.length + chs.length) rest ts) :
    Scans start (blanks ++ (chs ++ rest)) (t :: ts)

/-- What a token is, what it was read from, and how far from `start` it stands. -/
def Token.placedFrom (start : Nat) (t : Token) : Token.Kind × String × Int :=
  (t.kind, t.value, t.position - start)

/-- Places that agree when counted from further on agree. -/
theorem Token.map_placedFrom_of_shift {a b k : Nat} {us ts : List Token}
    (h : us.map (placedFrom (a + k)) = ts.map (placedFrom (b + k))) :
    us.map (placedFrom a) = ts.map (placedFrom b) := by
  have hshift : ∀ n, (fun x : Token.Kind × String × Int => (x.1, x.2.1, x.2.2 + k)) ∘
      placedFrom (n + k) = placedFrom n := by
    intro n
    funext t
    simp only [Function.comp_apply, placedFrom, Prod.mk.injEq, true_and]
    omega
  rw [← hshift a, ← hshift b, ← List.map_map, ← List.map_map, h]

/-! ### Fronts of lists -/

/-- What is left behind the longest front with a property begins without it. -/
theorem head_dropWhile_not (p : Char → Bool) (text : List Char) :
    ∀ c ∈ (text.dropWhile p).head?, p c = false := by
  intro c hc
  have hnot := List.head?_dropWhile_not p text
  rw [Option.mem_def.mp hc] at hnot
  simpa using hnot

/-- If nothing is left behind it, this front is everything. -/
theorem takeWhile_of_dropWhile_eq_nil {p : Char → Bool} {text : List Char}
    (h : text.dropWhile p = []) : text.takeWhile p = text := by
  have hsplit := List.takeWhile_append_dropWhile (p := p) (l := text)
  rwa [h, List.append_nil] at hsplit

/-! ### Lexemes -/

namespace Lexeme

variable {kind : Token.Kind} {chs rest : List Char}

theorem ne_nil (h : Lexeme kind chs rest) : chs ≠ [] := by
  cases h with
  | leftParen => simp
  | rightParen => simp
  | word hne _ _ => exact hne

theorem kind_ne_eof (h : Lexeme kind chs rest) : kind ≠ .eof := by
  cases h with
  | leftParen => simp
  | rightParen => simp
  | word _ _ _ => exact kindOfWord_ne_eof chs

/-- A lexeme does not begin with a blank. -/
theorem head_not_blank (h : Lexeme kind chs rest) : ∀ c ∈ chs.head?, isBlank c = false := by
  cases h with
  | leftParen => simp [isBlank]
  | rightParen => simp [isBlank]
  | word _ hchs _ =>
    intro c hc
    have hboundary := hchs c (List.mem_of_mem_head? hc)
    rw [isBoundary, Bool.or_eq_false_iff] at hboundary
    exact hboundary.1

/-- Blanks in front of a lexeme end where it begins. -/
theorem dropWhile_blanks (h : Lexeme kind chs rest) {blanks : List Char}
    (hblanks : ∀ c ∈ blanks, isBlank c = true) :
    (blanks ++ (chs ++ rest)).dropWhile isBlank = chs ++ rest := by
  rw [List.dropWhile_append_of_pos hblanks]
  obtain ⟨c, cs, rfl⟩ := List.exists_cons_of_ne_nil h.ne_nil
  rw [List.cons_append, List.dropWhile_cons_of_neg (by simp [h.head_not_blank c rfl])]

/-- Blanks in front of a lexeme are all the blanks there are. -/
theorem takeWhile_blanks (h : Lexeme kind chs rest) {blanks : List Char}
    (hblanks : ∀ c ∈ blanks, isBlank c = true) :
    (blanks ++ (chs ++ rest)).takeWhile isBlank = blanks := by
  have hsplit := List.takeWhile_append_dropWhile (p := isBlank) (l := blanks ++ (chs ++ rest))
  rw [h.dropWhile_blanks hblanks] at hsplit
  exact List.append_cancel_right hsplit

end Lexeme

/-- Every text that does not begin with a blank begins with a lexeme. -/
theorem exists_lexeme {text : List Char} (hne : text ≠ [])
    (hhead : ∀ c ∈ text.head?, isBlank c = false) :
    ∃ kind chs rest, text = chs ++ rest ∧ Lexeme kind chs rest := by
  obtain ⟨c, cs, rfl⟩ := List.exists_cons_of_ne_nil hne
  by_cases hparen : isParen c = true
  · rw [isParen, Bool.or_eq_true, decide_eq_true_eq, decide_eq_true_eq] at hparen
    rcases hparen with rfl | rfl
    · exact ⟨_, ['('], cs, rfl, .leftParen cs⟩
    · exact ⟨_, [')'], cs, rfl, .rightParen cs⟩
  · have hc : isBoundary c = false := by simp [isBoundary, hparen, hhead c rfl]
    refine ⟨_, (c :: cs).takeWhile fun d => !isBoundary d, (c :: cs).dropWhile fun d => !isBoundary d,
      List.takeWhile_append_dropWhile.symm, .word (by simp [hc]) ?_ ?_⟩
    · intro d hd
      have hall := List.all_takeWhile (p := fun d => !isBoundary d) (l := c :: cs)
      simpa using List.all_eq_true.mp hall d hd
    · intro d hd
      simpa using head_dropWhile_not (fun d => !isBoundary d) (c :: cs) d hd

/-! ### Reading one token -/

namespace Cursor

/-- Passing blanks takes all of them and nothing else. -/
theorem skipFrom_eq (text : List Char) (position line column : Nat) :
    (skipFrom text position line column).rest = text.dropWhile isBlank ∧
      (skipFrom text position line column).position =
        position + (text.takeWhile isBlank).length := by
  fun_induction skipFrom text position line column with
  -- the last case is the only one that passes nothing
  | case6 text position line column h1 h2 h3 h4 h5 =>
    cases text with
    | nil => simp
    | cons c cs =>
      have hc : isBlank c = false := by
        have hspace : c ≠ ' ' := fun h => h1 cs (by rw [h])
        have htab : c ≠ '\t' := fun h => h2 cs (by rw [h])
        have hfeed : c ≠ '\n' := fun h => h3 cs (by rw [h])
        have hreturn : c ≠ '\r' := fun h => h5 cs (by rw [h])
        simp [isBlank, hspace, htab, hfeed, hreturn]
      simp [hc]
  | case1 rest position line column ih => simp [isBlank, ih]; omega
  | case2 rest position line column ih => simp [isBlank, ih]; omega
  | case3 rest position line column ih => simp [isBlank, ih]; omega
  | case4 rest position line column ih => simp [isBlank, ih]; omega
  | case5 rest position line column hfeed ih => simp [isBlank, ih]; omega

theorem skip_rest (c : Cursor) : c.skip.rest = c.rest.dropWhile isBlank := (skipFrom_eq ..).1

theorem skip_position (c : Cursor) :
    c.skip.position = c.position + (c.rest.takeWhile isBlank).length := (skipFrom_eq ..).2

/-- Where only blanks are left, the end mark is read. -/
theorem next_of_blank {c : Cursor} (h : c.rest.dropWhile isBlank = []) :
    c.next = (.ok (c.skip.tokenHere .eof ""), c.skip) := by
  rw [← skip_rest] at h
  rw [next]
  simp only [h]

/-- **A lexeme is read as one token**, and the cursor stands behind it. -/
theorem next_of_lexeme {c : Cursor} {kind : Token.Kind} {chs rest : List Char}
    (h : c.rest.dropWhile isBlank = chs ++ rest) (hlexeme : Lexeme kind chs rest) :
    c.next = (.ok (c.skip.tokenHere kind (String.ofList chs)), c.skip.past chs.length) := by
  rw [← skip_rest] at h
  rw [next]
  generalize c.skip = d at h ⊢
  obtain ⟨text, position, line, column⟩ := d
  simp only at h
  subst h
  cases hlexeme with
  | leftParen => rfl
  | rightParen => rfl
  | word hne hchs hrest =>
    obtain ⟨ch, chs, rfl⟩ := List.exists_cons_of_ne_nil hne
    have hch := hchs ch (by simp)
    have hleft : ch ≠ '(' := by rintro rfl; simp [isBoundary, isParen] at hch
    have hright : ch ≠ ')' := by rintro rfl; simp [isBoundary, isParen] at hch
    -- the word ahead is the lexeme: all of it, and nothing behind it
    have hahead : wordAhead ⟨ch :: chs ++ rest, position, line, column⟩ = ch :: chs := by
      have hall : ∀ c ∈ ch :: chs, (!isBoundary c) = true := fun c hc => by simp [hchs c hc]
      rw [wordAhead, List.takeWhile_append_of_pos hall]
      cases rest with
      | nil => simp
      | cons d rest => simp [hrest d rfl]
    simp only [List.cons_append] at hahead ⊢
    split
    · contradiction
    · next heq => exact absurd (List.cons.inj heq).1 hleft
    · next heq => exact absurd (List.cons.inj heq).1 hright
    · rw [word, hahead]
      rfl

/-! ### Reading all tokens -/

theorem tokens_of_eof {c c' : Cursor} {t : Token} (h : c.next = (.ok t, c')) (ht : t.kind = .eof) :
    c.tokens = (.ok [t], c') := by
  rw [tokens]
  split
  · next heq => rw [h] at heq; cases heq
  · next heq =>
    rw [h] at heq
    cases heq
    rw [dif_pos ht]

theorem tokens_of_ne_eof {c c' : Cursor} {t : Token} (h : c.next = (.ok t, c'))
    (ht : t.kind ≠ .eof) : c.tokens = (c'.tokens.1.map (t :: ·), c'.tokens.2) := by
  rw [tokens]
  split
  · next heq => rw [h] at heq; cases heq
  · next heq =>
    rw [h] at heq
    cases heq
    rw [dif_neg ht]

/-- **Every text is read.** The tokens are the lexemes of the text ahead, at their places, and the
end mark stands behind all of it. -/
theorem tokens_scans (c : Cursor) : ∃ ts, c.tokens.1 = .ok ts ∧ Scans c.position c.rest ts := by
  have hblanks : ∀ ch ∈ c.rest.takeWhile isBlank, isBlank ch = true :=
    List.all_eq_true.mp List.all_takeWhile
  -- behind the blanks the text is over, or a lexeme begins there
  by_cases hend : c.rest.dropWhile isBlank = []
  · have hnext := next_of_blank hend
    refine ⟨_, by rw [tokens_of_eof hnext rfl], ?_⟩
    rw [← takeWhile_of_dropWhile_eq_nil hend]
    exact .done hblanks rfl rfl (by simp [tokenHere, skip_position])
  · obtain ⟨kind, chs, rest, hsplit, hlexeme⟩ :=
      exists_lexeme hend (head_dropWhile_not isBlank c.rest)
    have hnext := next_of_lexeme hsplit hlexeme
    have hbehind : (c.skip.past chs.length).rest = rest := by
      simp [past, skip_rest, hsplit]
    -- what is ahead gets shorter, so the rest is read by the same theorem
    have hshorter := next_shorter hnext hlexeme.kind_ne_eof
    obtain ⟨ts, hts, hscans⟩ := tokens_scans (c.skip.past chs.length)
    refine ⟨_, by rw [tokens_of_ne_eof hnext hlexeme.kind_ne_eof, hts]; rfl, ?_⟩
    rw [← List.takeWhile_append_dropWhile (p := isBlank) (l := c.rest), hsplit]
    rw [hbehind] at hscans
    refine .token hblanks hlexeme rfl (by simp [tokenHere, skip_position]) ?_
    simpa [past, skip_position] using hscans
termination_by c.rest.length

/-- The tokens of a text are the ones that are read there, with their places counted from where
the reading begins. -/
theorem tokens_of_scans {start : Nat} {text : List Char} {ts : List Token}
    (h : Scans start text ts) {c : Cursor} (hc : c.rest = text) :
    ∃ us, c.tokens.1 = .ok us ∧
      us.map (Token.placedFrom c.position) = ts.map (Token.placedFrom start) := by
  induction h generalizing c with
  | @done start blanks t hblanks hkind hvalue hposition =>
    have hend : c.rest.dropWhile isBlank = [] := by
      have hdrop := @List.dropWhile_append_of_pos _ isBlank blanks [] hblanks
      rwa [List.append_nil, ← hc] at hdrop
    have htake : c.rest.takeWhile isBlank = blanks := by
      rw [takeWhile_of_dropWhile_eq_nil hend, hc]
    refine ⟨_, by rw [tokens_of_eof (next_of_blank hend) rfl], ?_⟩
    simp only [List.map_cons, List.map_nil, Token.placedFrom, tokenHere, skip_position, htake,
      hkind, hvalue, hposition, List.cons.injEq, Prod.mk.injEq, true_and, and_true]
    omega
  | @token start blanks chs rest t ts hblanks hlexeme hvalue hposition _ ih =>
    have hsplit : c.rest.dropWhile isBlank = chs ++ rest := by
      rw [hc, hlexeme.dropWhile_blanks hblanks]
    have htake : c.rest.takeWhile isBlank = blanks := by rw [hc, hlexeme.takeWhile_blanks hblanks]
    have hnext := next_of_lexeme hsplit hlexeme
    have hbehind : (c.skip.past chs.length).rest = rest := by simp [past, skip_rest, hsplit]
    -- the places of the others are counted from behind this lexeme on both sides
    obtain ⟨us, hus, hplaces⟩ := ih hbehind
    refine ⟨_, by rw [tokens_of_ne_eof hnext hlexeme.kind_ne_eof, hus]; rfl, ?_⟩
    have hposition' : (c.skip.past chs.length).position =
      c.position + (blanks.length + chs.length) := by simp [past, skip_position, htake]; omega
    rw [hposition', Nat.add_assoc] at hplaces
    rw [List.map_cons, List.map_cons, Token.map_placedFrom_of_shift hplaces]
    simp only [Token.placedFrom, tokenHere, skip_position, htake, hvalue, hposition,
      List.cons.injEq, Prod.mk.injEq, true_and, and_true]
    omega

end Cursor

/-- **A text has one segmentation.** Its tokens have the same kinds and texts wherever it begins,
and stand equally far from its beginning. -/
theorem Scans.unique {a b : Nat} {text : List Char} {ts us : List Token} (hts : Scans a text ts)
    (hus : Scans b text us) : ts.map (Token.placedFrom a) = us.map (Token.placedFrom b) := by
  -- both are what one and the same cursor reads
  let c : Cursor := ⟨text, 0, 1, 1⟩
  obtain ⟨found, hfound, hplaces⟩ := Cursor.tokens_of_scans hts (c := c) rfl
  obtain ⟨found', hfound', hplaces'⟩ := Cursor.tokens_of_scans hus (c := c) rfl
  rw [hfound, Except.ok.injEq] at hfound'
  rw [← hplaces, ← hplaces', hfound']

/-! ### What is scanned first -/

/-- An end mark is scanned behind nothing but blanks. -/
theorem scans_singleton_iff {start : Nat} {chars : List Char} {last : Token} :
    Scans start chars [last] ↔ (∀ c ∈ chars, isBlank c = true) ∧ last.kind = .eof ∧
      last.value = "" ∧ last.position = ↑(start + chars.length) := by
  constructor
  · rintro (⟨hblanks, hkind, hvalue, hposition⟩ | ⟨-, -, -, -, others⟩)
    · exact ⟨hblanks, hkind, hvalue, hposition⟩
    · cases others
  · rintro ⟨hblanks, hkind, hvalue, hposition⟩
    exact .done hblanks hkind hvalue hposition

/-- A token in front of others is scanned behind blanks, and the others behind it. -/
theorem scans_cons_iff {start : Nat} {chars : List Char} {t : Token} {ts : List Token}
    (hts : ts ≠ []) :
    Scans start chars (t :: ts) ↔ ∃ blanks rest, chars = blanks ++ (t.value.toList ++ rest) ∧
      (∀ c ∈ blanks, isBlank c = true) ∧ Lexeme t.kind t.value.toList rest ∧
      t.position = ↑(start + blanks.length) ∧
      Scans (start + blanks.length + t.value.length) rest ts := by
  constructor
  · rintro (_ | ⟨hblanks, hlexeme, hvalue, hposition, others⟩)
    · exact absurd rfl hts
    · refine ⟨_, _, by rw [hvalue, String.toList_ofList], hblanks, ?_, hposition, ?_⟩
      · rwa [hvalue, String.toList_ofList]
      · rwa [hvalue, String.length_ofList]
  · rintro ⟨blanks, rest, rfl, hblanks, hlexeme, hposition, others⟩
    refine .token hblanks hlexeme String.ofList_toList.symm hposition ?_
    rwa [String.length_toList]

end TagFilter
