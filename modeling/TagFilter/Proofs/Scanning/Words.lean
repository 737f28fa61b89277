import TagFilter.Proofs.Scanning.Cutting
import TagFilter.Proofs.Scanning.LowerCasing

/-!
# The words of a text

A text can be taken apart into words without reading tokens: it is split at every character that
parts words, and the empty pieces are dropped. These are the tokens that are no parentheses, in the
same order (`Scans.wordsOf_eq`), so that operators can be counted in the text itself
(`Scans.operatorWords_eq`).

* `wordsOf`, `operatorWords` — the words of a text, and how many of them are operators;
* `wordsOf_append_cons` — words split at every character that parts them; all else about `wordsOf`
  follows from this equation.
-/

namespace TagFilter

/-- The words of a text: what stands between the characters that part words. -/
def wordsOf (chs : List Char) : List (List Char) :=
  (chs.splitOnP isBoundary).filter fun word => !word.isEmpty

/-- Is the word `and`, `or` or `not`, in whatever letters it is written? -/
def LowerCasing.isOperator (lower : LowerCasing) (word : List Char) : Bool :=
  lower.small (String.ofList word) ∈ ["and", "or", "not"]

/-- The number of operators among the words of a text. -/
def operatorWords (lower : LowerCasing) (chs : List Char) : Nat :=
  (wordsOf chs).countP lower.isOperator

/-- The kinds of token that operators have. -/
def Token.Kind.isOperator : Token.Kind → Bool
  | .and | .or | .not => true
  | .identifier | .leftParen | .rightParen | .eof => false

/-- Is the token a word? -/
def Token.isWord (t : Token) : Bool := t.kind.isOperator || t.kind == .identifier

variable {chs word rest : List Char} {start : Nat} {ts : List Token}

/-! ### Splitting -/

/-- **Words split at every character that parts them.** -/
theorem wordsOf_append_cons {c : Char} (hc : isBoundary c = true) (left right : List Char) :
    wordsOf (left ++ c :: right) = wordsOf left ++ wordsOf right := by
  rw [wordsOf, List.splitOnP_append_cons left right hc, List.filter_append]
  rfl

theorem wordsOf_nil : wordsOf [] = [] := by simp [wordsOf, List.splitOnP_nil]

/-- In front of the first word nothing counts. -/
theorem wordsOf_boundary_append {boundaries : List Char}
    (h : ∀ c ∈ boundaries, isBoundary c = true) :
    wordsOf (boundaries ++ rest) = wordsOf rest := by
  induction boundaries with
  | nil => rfl
  | cons c boundaries ih =>
    rw [List.forall_mem_cons] at h
    have hsplit := wordsOf_append_cons h.1 [] (boundaries ++ rest)
    rw [wordsOf_nil, List.nil_append, List.nil_append] at hsplit
    rw [List.cons_append, hsplit, ih h.2]

/-- A whole word in front of a text is its first word. -/
theorem wordsOf_word_append (hne : word ≠ []) (hletters : ∀ c ∈ word, isBoundary c = false)
    (hrest : ∀ c ∈ rest.head?, isBoundary c = true) :
    wordsOf (word ++ rest) = word :: wordsOf rest := by
  have hword : wordsOf word = [word] := by
    rw [wordsOf, List.splitOnP_eq_singleton hletters]
    simp [hne]
  cases rest with
  | nil => rw [List.append_nil, hword, wordsOf_nil]
  | cons c rest =>
    have hc := hrest c rfl
    have hbehind := @wordsOf_boundary_append rest [c] (by simpa using hc)
    rw [wordsOf_append_cons hc, hword, ← hbehind]
    rfl

/-! ### Words and tokens -/

/-- **The words of a text are its tokens without the parentheses**, in the same order. -/
theorem Scans.wordsOf_eq (h : Scans start chs ts) :
    wordsOf chs = (ts.filter Token.isWord).map fun t => t.value.toList := by
  induction h with
  | @done start blanks t hblanks hkind _ _ =>
    have hnone := @wordsOf_boundary_append [] blanks fun c hc => isBoundary_of_isBlank (hblanks c hc)
    rw [List.append_nil, wordsOf_nil] at hnone
    simp [hnone, Token.isWord, Token.Kind.isOperator, hkind]
  | @token start blanks lexeme rest t ts hblanks hlexeme hvalue _ _ ih =>
    rw [wordsOf_boundary_append fun c hc => isBoundary_of_isBlank (hblanks c hc)]
    generalize hkind : t.kind = kind at hlexeme
    cases hlexeme with
    | leftParen =>
      have hparen := @wordsOf_boundary_append rest ['('] (by simp [isBoundary, isParen])
      rw [hparen, ih, List.filter_cons_of_neg (by simp [Token.isWord, Token.Kind.isOperator, hkind])]
    | rightParen =>
      have hparen := @wordsOf_boundary_append rest [')'] (by simp [isBoundary, isParen])
      rw [hparen, ih, List.filter_cons_of_neg (by simp [Token.isWord, Token.Kind.isOperator, hkind])]
    | word hne hletters hrest =>
      have hword : t.isWord = true := by
        rcases kindOfWord_cases lexeme with h | h | h | h <;>
          simp [Token.isWord, Token.Kind.isOperator, hkind, h]
      rw [wordsOf_word_append hne hletters hrest, ih, List.filter_cons_of_pos hword, List.map_cons,
        hvalue, String.toList_ofList]

/-- The kind of a token that is a word is the kind of that word. -/
theorem Scans.kind_of_isWord (h : Scans start chs ts) :
    ∀ t ∈ ts, t.isWord = true → t.kind = kindOfWord t.value.toList := by
  induction h with
  | done _ hkind _ _ => simp [Token.isWord, Token.Kind.isOperator, hkind]
  | @token start blanks lexeme rest t ts _ hlexeme hvalue _ _ ih =>
    rw [List.forall_mem_cons]
    refine ⟨fun hword => ?_, ih⟩
    rw [hvalue, String.toList_ofList]
    generalize hkind : t.kind = kind at hlexeme
    cases hlexeme with
    | leftParen => simp [Token.isWord, Token.Kind.isOperator, hkind] at hword
    | rightParen => simp [Token.isWord, Token.Kind.isOperator, hkind] at hword
    | word _ _ _ => rfl

/-- In a text without parentheses every token before the end mark is a word. -/
theorem Scans.isWord_of_no_parens (h : Scans start chs ts) (hparens : ∀ c ∈ chs, isParen c = false) :
    ∀ t ∈ ts, t.kind ≠ .eof → t.isWord = true := by
  induction h with
  | done _ hkind _ _ => simp [hkind]
  | @token start blanks lexeme rest t ts _ hlexeme _ _ _ ih =>
    rw [List.forall_mem_append, List.forall_mem_append] at hparens
    rw [List.forall_mem_cons]
    refine ⟨fun _ => ?_, ih hparens.2.2⟩
    generalize hkind : t.kind = kind at hlexeme
    cases hlexeme with
    | leftParen => simp [isParen] at hparens
    | rightParen => simp [isParen] at hparens
    | word _ _ _ =>
      rcases kindOfWord_cases lexeme with h | h | h | h <;>
        simp [Token.isWord, Token.Kind.isOperator, hkind, h]

/-- A word is an operator by its small form if and only if its kind is one. -/
theorem isOperator_iff (lower : LowerCasing) (word : List Char) :
    lower.isOperator word = (kindOfWord word).isOperator := by
  have hkind : WordKind lower (String.ofList word) (kindOfWord word) :=
    (wordKind_iff ..).mpr (by rw [String.toList_ofList])
  rw [LowerCasing.isOperator, Bool.eq_iff_iff, decide_eq_true_eq, List.mem_cons, List.mem_cons,
    List.mem_singleton, ← hkind.and_iff, ← hkind.or_iff, ← hkind.not_iff]
  rcases kindOfWord_cases word with h | h | h | h <;> simp [h, Token.Kind.isOperator]

/-- **Operators can be counted in the text or among its tokens.** -/
theorem Scans.operatorWords_eq (lower : LowerCasing) (h : Scans start chs ts) :
    operatorWords lower chs = ts.countP fun t => t.kind.isOperator := by
  rw [operatorWords, h.wordsOf_eq, List.countP_map, List.countP_filter]
  refine List.countP_congr fun t ht => ?_
  by_cases hword : t.isWord = true
  · simp [hword, isOperator_iff, ← h.kind_of_isWord t ht hword]
  · have hkind : t.kind.isOperator = false := by
      rw [Token.isWord, Bool.or_eq_true, not_or, Bool.not_eq_true] at hword
      exact hword.1
    simp [hword, hkind]

end TagFilter
