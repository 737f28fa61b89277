import TagFilter.Proofs.Grammar.LikeTokens
import TagFilter.Proofs.Scanning.Coverage

/-!
# Texts that differ in their layout

A text may be laid out in many ways: the operators can be written in any mixture of capital and
small letters, and the blanks around the tokens are free as long as they keep the words apart. The
layout makes no difference (`Filter.parse_restyled`): two texts that differ in nothing else spell the
same filter, or both are refused at corresponding tokens, where the same thing is wanted.

* `SameWord`, `Restyled` — words and texts that differ in their layout only, told without reading
  tokens;
* `Restyled.exists_scans` — their tokens are alike, one by one.

Blanks are compared with nothing, since a text may have more of them or fewer; what `Restyled` asks
for is that each word is a whole word in its own text.
-/

namespace TagFilter

open Grammar

/-- The words are the same, or both are the same operator, each with its own capital letters. -/
def SameWord (lower : LowerCasing) (word word' : String) : Prop :=
  word' = word ∨ (lower.small word' = lower.small word ∧ lower.small word ∈ ["and", "or", "not"])

/-- A whole word, which ends in front of `rest`. -/
structure EndsBefore (word : String) (rest : List Char) : Prop where
  ne_empty : word ≠ ""
  letters : ∀ c ∈ word.toList, isBoundary c = false
  boundary : ∀ c ∈ rest.head?, isBoundary c = true

/-- The texts consist of the same parentheses and the same words in the same order. They may differ
in the blanks between them, and in the capital letters of the operators. -/
inductive Restyled (lower : LowerCasing) : List Char → List Char → Prop where
  | blanks {blanks blanks' : List Char} (hblanks : ∀ c ∈ blanks, isBlank c = true)
    (hblanks' : ∀ c ∈ blanks', isBlank c = true) : Restyled lower blanks blanks'
  | paren {blanks blanks' rest rest' : List Char} {c : Char}
    (hblanks : ∀ c ∈ blanks, isBlank c = true) (hblanks' : ∀ c ∈ blanks', isBlank c = true)
    (hc : isParen c = true) (others : Restyled lower rest rest') :
    Restyled lower (blanks ++ c :: rest) (blanks' ++ c :: rest')
  | word {blanks blanks' rest rest' : List Char} {word word' : String}
    (hblanks : ∀ c ∈ blanks, isBlank c = true) (hblanks' : ∀ c ∈ blanks', isBlank c = true)
    (hword : EndsBefore word rest) (hword' : EndsBefore word' rest')
    (same : SameWord lower word word') (others : Restyled lower rest rest') :
    Restyled lower (blanks ++ (word.toList ++ rest)) (blanks' ++ (word'.toList ++ rest'))

variable {lower : LowerCasing} {word word' : String} {chs chs' rest : List Char}

/-! ### Words -/

theorem EndsBefore.lexeme (h : EndsBefore word rest) :
    Lexeme (kindOfWord word.toList) word.toList rest :=
  .word (fun hnil => h.ne_empty (String.toList_eq_nil_iff.mp hnil)) h.letters h.boundary

/-- The kind of a word is told by its small form. -/
theorem SameWord.kind_eq (h : SameWord lower word word') :
    kindOfWord word'.toList = kindOfWord word.toList := by
  rcases h with rfl | ⟨hsmall, -⟩
  · rfl
  · have hkind : WordKind lower word (kindOfWord word.toList) := (wordKind_iff ..).mpr rfl
    refine ((wordKind_iff lower word' _).mp ⟨?_, ?_, ?_, hkind.otherwise⟩).symm
    · rw [hsmall, hkind.and_iff]
    · rw [hsmall, hkind.or_iff]
    · rw [hsmall, hkind.not_iff]

/-- A pattern has no other spelling. -/
theorem SameWord.eq_of_identifier (h : SameWord lower word word')
    (hkind : kindOfWord word.toList = .identifier) : word' = word := by
  rcases h with rfl | ⟨-, hoperator⟩
  · rfl
  · have hword : WordKind lower word .identifier := (wordKind_iff ..).mpr hkind.symm
    -- an operator is no pattern
    simp only [List.mem_cons, List.not_mem_nil, or_false] at hoperator
    rcases hoperator with hand | hor | hnot
    · cases hword.and_iff.mpr hand
    · cases hword.or_iff.mpr hor
    · cases hword.not_iff.mpr hnot

/-! ### Tokens -/

/-- A parenthesis is a lexeme by itself. -/
theorem exists_lexeme_paren {c : Char} (hc : isParen c = true) :
    ∃ kind, ∀ rest, Lexeme kind [c] rest := by
  rw [isParen, Bool.or_eq_true, decide_eq_true_eq, decide_eq_true_eq] at hc
  rcases hc with rfl | rfl
  · exact ⟨_, .leftParen⟩
  · exact ⟨_, .rightParen⟩

/-- **Texts that differ in their layout have alike tokens**, wherever they stand. -/
theorem Restyled.exists_scans (h : Restyled lower chs chs') (start start' : Nat) :
    ∃ ts us, Scans start chs ts ∧ Scans start' chs' us ∧ List.Forall₂ Token.Alike ts us := by
  induction h generalizing start start' with
  | @blanks blanks blanks' hblanks hblanks' =>
    let t : Token := ⟨.eof, "", ↑(start + blanks.length), 0, 0⟩
    let u : Token := ⟨.eof, "", ↑(start' + blanks'.length), 0, 0⟩
    have halike : t.Alike u := ⟨rfl, fun _ => rfl⟩
    exact ⟨[t], [u], .done hblanks rfl rfl rfl, .done hblanks' rfl rfl rfl,
      .cons halike .nil⟩
  | @paren blanks blanks' rest rest' c hblanks hblanks' hc _ ih =>
    obtain ⟨kind, hlexeme⟩ := exists_lexeme_paren hc
    obtain ⟨ts, us, hts, hus, halike⟩ :=
      ih (start + blanks.length + 1) (start' + blanks'.length + 1)
    let t : Token := ⟨kind, String.ofList [c], ↑(start + blanks.length), 0, 0⟩
    let u : Token := ⟨kind, String.ofList [c], ↑(start' + blanks'.length), 0, 0⟩
    have htu : t.Alike u := ⟨rfl, fun _ => rfl⟩
    have hscans := @Scans.token start blanks [c] rest t ts hblanks (hlexeme rest) rfl rfl hts
    have hscans' := @Scans.token start' blanks' [c] rest' u us hblanks' (hlexeme rest') rfl rfl hus
    exact ⟨t :: ts, u :: us, hscans, hscans', .cons htu halike⟩
  | @word blanks blanks' rest rest' word word' hblanks hblanks' hword hword' same _ ih =>
    obtain ⟨ts, us, hts, hus, halike⟩ := ih (start + blanks.length + word.toList.length)
      (start' + blanks'.length + word'.toList.length)
    let t : Token := ⟨kindOfWord word.toList, word, ↑(start + blanks.length), 0, 0⟩
    let u : Token := ⟨kindOfWord word'.toList, word', ↑(start' + blanks'.length), 0, 0⟩
    have htu : t.Alike u := ⟨same.kind_eq, same.eq_of_identifier⟩
    exact ⟨t :: ts, u :: us, .token hblanks hword.lexeme String.ofList_toList.symm rfl hts,
      .token hblanks' hword'.lexeme String.ofList_toList.symm rfl hus, .cons htu halike⟩

/-- The tokens that are read from a text have the gist of those that are scanned there. -/
theorem Scans.exists_tokenize {start : Nat} {text : String} {ts : List Token}
    (h : Scans start text.toList ts) :
    ∃ us, tokenize text = .ok us ∧ us.map Token.gist = ts.map Token.gist := by
  obtain ⟨us, hus, hplaces⟩ := Cursor.tokens_of_scans h (c := Cursor.start text) rfl
  exact ⟨us, hus, Token.map_gist_of_placedFrom hplaces⟩

/-- What is read from a text is scanned there. -/
theorem scans_of_tokenize {text : String} {ts : List Token} (h : tokenize text = .ok ts) :
    Scans 0 text.toList ts := by
  obtain ⟨us, hus, hscans⟩ := (Cursor.start text).tokens_scans
  rw [tokenize, hus, Except.ok.injEq] at h
  rwa [h] at hscans

namespace Filter

/-- **The layout makes no difference.** Two closed lists of alike tokens, which may differ in their
places and in the spelling of the operators, spell the same filter, or both are refused at the same
place, where the same thing is wanted. The tokens of two texts that differ in their layout are
alike; so the texts spell the same filter, or both are refused at corresponding tokens. -/
theorem parse_restyled (lower : LowerCasing) :
    (∀ (body : List Token) (last : Token) (us : List Token), (∀ t ∈ body, t.kind ≠ .eof) →
      last.kind = .eof → List.Forall₂ Token.Alike (body ++ [last]) us →
      SameVerdict (body ++ [last]) us) ∧
    ∀ text text' : String, Restyled lower text.toList text'.toList →
      ∃ ts us, tokenize text = .ok ts ∧ tokenize text' = .ok us ∧
        List.Forall₂ Token.Alike ts us ∧ parse text = ofTokens ts ∧ parse text' = ofTokens us ∧
        SameVerdict ts us := by
  refine ⟨fun _ _ _ => sameVerdict_of_alike, fun text text' h => ?_⟩
  obtain ⟨ts₀, us₀, hts₀, hus₀, halike₀⟩ := h.exists_scans 0 0
  obtain ⟨ts, hts, hgist⟩ := hts₀.exists_tokenize
  obtain ⟨us, hus, hgist'⟩ := hus₀.exists_tokenize
  have halike : List.Forall₂ Token.Alike ts us := by
    rw [Token.forall₂_alike_iff] at halike₀ ⊢
    rw [hgist', halike₀, hgist]
  obtain ⟨body, last, rfl, hlast, hbody⟩ := (scans_of_tokenize hts).closed
  refine ⟨_, us, hts, hus, halike, by rw [parse, hts], by rw [parse, hus], ?_⟩
  exact sameVerdict_of_alike hbody hlast halike

/-- `(a OR` and the same with a line break, another blank and small letters: both are refused at the
end mark, where an operand is wanted. -/
theorem parse_restyled_unfinished :
    let text := "(a OR"
    let text' := "( a\r\nor "
    Restyled .latin text.toList text'.toList ∧
      (∃ ts us, tokenize text = .ok ts ∧ tokenize text' = .ok us ∧
        List.Forall₂ Token.Alike ts us ∧ parse text = ofTokens ts ∧ parse text' = ofTokens us ∧
        SameVerdict ts us) ∧
      let body : List Token := [⟨.leftParen, "(", 0, 1, 1⟩, ⟨.identifier, "a", 1, 1, 2⟩,
        ⟨.or, "OR", 3, 1, 4⟩]
      let us : List Token := [⟨.leftParen, "(", 0, 1, 1⟩, ⟨.identifier, "a", 2, 1, 3⟩,
        ⟨.or, "or", 5, 2, 1⟩, ⟨.eof, "", 8, 2, 4⟩]
      let last : Token := ⟨.eof, "", 5, 1, 6⟩
      (∀ t ∈ body, t.kind ≠ .eof) ∧ last.kind = .eof ∧
        List.Forall₂ Token.Alike (body ++ [last]) us ∧ SameVerdict (body ++ [last]) us := by
  intro text text'
  have hblanks : ∀ c ∈ [' ', '\r', '\n'], isBlank c = true := by simp [isBlank]
  have hletters : ∀ c ∈ ['a', 'o', 'r', 'O', 'R'], isBoundary c = false := by
    simp [isBoundary, isBlank, isParen]
  have hor : Restyled .latin [' ', 'O', 'R'] ['\r', '\n', 'o', 'r', ' '] :=
    @Restyled.word .latin [' '] ['\r', '\n'] [] [' '] "OR" "or" (by simp [hblanks])
      (by simp [hblanks]) ⟨by simp, by simp [hletters], by simp⟩
      ⟨by simp, by simp [hletters], by simp [isBoundary_of_isBlank, hblanks]⟩
      (.inr (by decide +kernel)) (.blanks (by simp) (by simp [hblanks]))
  have ha : Restyled .latin ['a', ' ', 'O', 'R'] [' ', 'a', '\r', '\n', 'o', 'r', ' '] :=
    @Restyled.word .latin [] [' '] _ _ "a" "a" (by simp) (by simp [hblanks])
      ⟨by simp, by simp [hletters], by simp [isBoundary_of_isBlank, hblanks]⟩
      ⟨by simp, by simp [hletters], by simp [isBoundary_of_isBlank, hblanks]⟩ (.inl rfl) hor
  have hrestyled : Restyled .latin text.toList text'.toList := by
    have htext : text.toList = '(' :: ['a', ' ', 'O', 'R'] := by simp [text]
    have htext' : text'.toList = '(' :: [' ', 'a', '\r', '\n', 'o', 'r', ' '] := by simp [text']
    rw [htext, htext']
    exact @Restyled.paren .latin [] [] _ _ '(' (by simp) (by simp) rfl ha
  refine ⟨hrestyled, (parse_restyled .latin).2 text text' hrestyled, ?_⟩
  intro body us last
  have hbody : ∀ t ∈ body, t.kind ≠ .eof := by decide
  have halike : List.Forall₂ Token.Alike (body ++ [last]) us := by
    rw [Token.forall₂_alike_iff]
    decide
  exact ⟨hbody, rfl, halike, (parse_restyled .latin).1 body last us hbody rfl halike⟩

end Filter

end TagFilter
