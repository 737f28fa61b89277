import TagFilter.Proofs.Filter.Substitution
import TagFilter.Proofs.Scanning.Coverage

/-!
# Which filters have a text

A filter is spelled by some text exactly if each of its patterns could be a word of a text
(`Filter.exists_text_iff`). Its shape does not matter, since parentheses can force any.

* `IsPattern` — a word that may stand as a pattern: it has a letter, nothing in it parts words, and
  it is no operator in small letters;
* `Filter.spelled` — a text of a filter, with every operand in parentheses;
* `Spells`, `Filter.spells_spelled` — its tokens derive the filter.

Parentheses part words, so `Filter.spelled` needs no blanks, and the tokens of an operand stay as
they are when it is put between them. This is `Scans.enclosed`, used once for the operand behind an
operator and once for the one in front of it.
-/

namespace TagFilter

open Grammar

/-- A word that may stand as a pattern in a text. -/
structure IsPattern (lower : LowerCasing) (pattern : String) : Prop where
  ne_empty : pattern ≠ ""
  letters : ∀ c ∈ pattern.toList, c ∉ [' ', '\t', '\n', '\r', '(', ')']
  no_operator : lower.small pattern ∉ ["and", "or", "not"]

/-- The patterns are the words to which the lexicon gives no other kind. -/
theorem isPattern_iff {lower : LowerCasing} {pattern : String} :
    IsPattern lower pattern ↔ pattern.toList ≠ [] ∧
      (∀ c ∈ pattern.toList, isBoundary c = false) ∧ kindOfWord pattern.toList = .identifier := by
  have hkind : WordKind lower pattern (kindOfWord pattern.toList) := (wordKind_iff ..).mpr rfl
  have hboundary : ∀ c, c ∉ [' ', '\t', '\n', '\r', '(', ')'] ↔ isBoundary c = false := by
    simp [isBoundary, isBlank, isParen, and_assoc]
  have hword : lower.small pattern ∉ ["and", "or", "not"] ↔
      kindOfWord pattern.toList = .identifier := by
    rw [List.mem_cons, List.mem_cons, List.mem_singleton, not_or, not_or, ← hkind.and_iff,
      ← hkind.or_iff, ← hkind.not_iff]
    constructor
    · rintro ⟨hand, hor, hnot⟩
      exact hkind.otherwise hand hor hnot
    · intro h
      simp [h]
  rw [← hword, ← forall₂_congr fun c _ => hboundary c, Ne, String.toList_eq_nil_iff]
  exact ⟨fun h => ⟨h.ne_empty, h.letters, h.no_operator⟩, fun h => ⟨h.1, h.2.1, h.2.2⟩⟩

/-- The tokens of the text derive the filter. -/
def Spells (chs : List Char) (f : Filter) : Prop :=
  ∃ (ts : List Token) (e : Token), Scans 0 chs (ts ++ [e]) ∧ e.kind = .eof ∧
    Derives .disjunction ts f

variable {word chs right : List Char} {f g : Filter}

/-! ### Tokens of words and of operands -/

/-- A word by itself is one token. -/
theorem exists_scans_word (hne : word ≠ []) (hletters : ∀ c ∈ word, isBoundary c = false) :
    ∃ t e : Token, Scans 0 word ([t] ++ [e]) ∧ t.kind = kindOfWord word ∧
      t.value = String.ofList word ∧ e.kind = .eof := by
  let t : Token := ⟨kindOfWord word, String.ofList word, 0, 1, 1⟩
  let e : Token := ⟨.eof, "", word.length, 1, 1⟩
  have hend : Scans (0 + 0 + word.length) [] [e] := .done (by simp) rfl rfl (by simp [e])
  have hlexeme : Lexeme t.kind word [] := .word hne hletters (by simp)
  have hscans := @Scans.token 0 [] word [] t [e] (by simp) hlexeme rfl rfl hend
  exact ⟨t, e, by simpa using hscans, rfl, rfl, rfl⟩

/-- An operator with an operand in parentheses behind it. -/
theorem Spells.behind (h : Spells chs f) (hne : word ≠ [])
    (hletters : ∀ c ∈ word, isBoundary c = false) :
    ∃ (t : Token) (ts : List Token) (e : Token),
      Scans 0 (word ++ '(' :: (chs ++ [')'])) (t :: ts ++ [e]) ∧ t.kind = kindOfWord word ∧
        e.kind = .eof ∧ Derives .primary ts f := by
  obtain ⟨us, e', hinner, -, hderives⟩ := h
  obtain ⟨t, e₁, hleft, hkind, -, -⟩ := exists_scans_word hne hletters
  -- behind the closing parenthesis nothing follows
  have hright : Scans 0 [] ([] ++ [⟨.eof, "", 0, 1, 1⟩]) := .done (by simp) rfl rfl rfl
  obtain ⟨l, r, ts, behind, e, hscans, hl, hts, hr, hbehind, he⟩ := hleft.enclosed hinner hright
  obtain rfl : behind = [] := by simpa using hbehind
  exact ⟨t, l :: (ts ++ [r]), e, by simpa using hscans, hkind, he,
    .parens hl (hderives.congr hts) hr⟩

/-- An operand in parentheses with an operator and another operand behind it. -/
theorem Spells.before {t : Token} {ts : List Token} {e : Token} {p : Phrase} (h : Spells chs f)
    (hright : Scans 0 right (t :: ts ++ [e])) (he : e.kind = .eof) (hts : Derives p ts g) :
    ∃ (front : List Token) (t' : Token) (ts' : List Token) (e' : Token),
      Scans 0 ('(' :: (chs ++ ')' :: right)) (front ++ t' :: ts' ++ [e']) ∧ e'.kind = .eof ∧
        Derives .primary front f ∧ t'.kind = t.kind ∧ Derives p ts' g := by
  obtain ⟨us, e₂, hinner, -, hderives⟩ := h
  have hleft : Scans 0 [] ([] ++ [⟨.eof, "", 0, 1, 1⟩]) := .done (by simp) rfl rfl rfl
  obtain ⟨l, r, us', behind, e', hscans, hl, hus, hr, hbehind, he'⟩ := hleft.enclosed hinner hright
  obtain ⟨t', ts', rfl, ht', hts'⟩ := List.map_eq_cons_iff.mp hbehind
  exact ⟨l :: (us' ++ [r]), t', ts', e', by simpa using hscans, he'.trans he,
    .parens hl (hderives.congr hus) hr, Token.kind_eq_of_gist ht', hts.congr hts'⟩

/-! ### A text for every filter -/

/-- A text of the filter, with every operand in parentheses. -/
def Filter.spelled : Filter → List Char
  | identifier pattern => pattern.toList
  | and left right =>
    '(' :: (left.spelled ++ ')' :: (['a', 'n', 'd'] ++ '(' :: (right.spelled ++ [')'])))
  | or left right =>
    '(' :: (left.spelled ++ ')' :: (['o', 'r'] ++ '(' :: (right.spelled ++ [')'])))
  | not operand => ['n', 'o', 't'] ++ '(' :: (operand.spelled ++ [')'])

/-- **The text of a filter spells it**, if its patterns may stand in a text. -/
theorem Filter.spells_spelled {lower : LowerCasing} (f : Filter)
    (h : ∀ pattern ∈ f.leaves, IsPattern lower pattern) : Spells f.spelled f := by
  induction f with
  | identifier pattern =>
    obtain ⟨hne, hletters, hkind⟩ := isPattern_iff.mp (h pattern (by simp [leaves]))
    obtain ⟨t, e, hscans, ht, hvalue, he⟩ := exists_scans_word hne hletters
    rw [String.ofList_toList] at hvalue
    have hleaf : Derives .primary [t] (identifier t.value) := .identifier (ht.trans hkind)
    rw [hvalue] at hleaf
    exact ⟨[t], e, hscans, he,
      .disjunction_of_conjunction (.conjunction_of_negation (.operand hleaf))⟩
  | not operand ih =>
    obtain ⟨t, ts, e, hscans, ht, he, hts⟩ :=
      @Spells.behind ['n', 'o', 't'] _ _ (ih h) (by simp) (by simp [isBoundary, isBlank, isParen])
    refine ⟨t :: ts, e, hscans, he, ?_⟩
    exact .disjunction_of_conjunction (.conjunction_of_negation (.not ht (.operand hts)))
  | and left right ihl ihr =>
    rw [leaves, List.forall_mem_append] at h
    obtain ⟨t, ts, e, hright, ht, he, hts⟩ :=
      @Spells.behind ['a', 'n', 'd'] _ _ (ihr h.2) (by simp)
        (by simp [isBoundary, isBlank, isParen])
    obtain ⟨front, t', ts', e', hscans, he', hfront, ht', hts'⟩ := (ihl h.1).before hright he hts
    refine ⟨front ++ t' :: ts', e', hscans, he', ?_⟩
    have hkind : t'.kind = .and := ht'.trans ht
    have hchain := @Derives.conjunction front left [⟨t', ts', right⟩] (.operand hfront)
      (by simp [hkind]) (by simpa using .operand hts')
    exact .disjunction_of_conjunction (by simpa using hchain)
  | or left right ihl ihr =>
    rw [leaves, List.forall_mem_append] at h
    obtain ⟨t, ts, e, hright, ht, he, hts⟩ :=
      @Spells.behind ['o', 'r'] _ _ (ihr h.2) (by simp)
        (by simp [isBoundary, isBlank, isParen])
    obtain ⟨front, t', ts', e', hscans, he', hfront, ht', hts'⟩ := (ihl h.1).before hright he hts
    refine ⟨front ++ t' :: ts', e', hscans, he', ?_⟩
    have hkind : t'.kind = .or := ht'.trans ht
    have hchain := @Derives.disjunction front left [⟨t', ts', right⟩]
      (.conjunction_of_negation (.operand hfront)) (by simp [hkind])
      (by simpa using Derives.conjunction_of_negation (.operand hts'))
    simpa using hchain

/-! ### The patterns of a text -/

/-- A pattern that was read from a text may stand in one. -/
theorem Filter.isPattern_of_parse {text : String} (h : parse text = .ok f) (lower : LowerCasing) :
    ∀ pattern ∈ f.leaves, IsPattern lower pattern := by
  intro pattern hpattern
  obtain ⟨body, last, -, -, hscans, hderives⟩ := exists_of_parse h
  rw [hderives.leaves_eq, patterns, List.mem_map] at hpattern
  obtain ⟨t, ht, rfl⟩ := hpattern
  obtain ⟨ht, hkind⟩ := List.mem_filter.mp ht
  rw [decide_eq_true_eq] at hkind
  have hiff := @scans_iff text last body [] text.toList rfl
  rw [List.length_nil] at hiff
  obtain ⟨_, _, -, -, hlexeme⟩ := (hiff.mp hscans).1 t ht
  -- a lexeme of this kind is no parenthesis
  rw [hkind] at hlexeme
  rcases lexeme_iff.mp hlexeme with ⟨hparen, -⟩ | ⟨hparen, -⟩ | ⟨hne, hletters, -, hword⟩
  · cases hparen
  · cases hparen
  · exact isPattern_iff.mpr ⟨hne, hletters, hword.symm⟩

/-- **The filters that have a text are those whose patterns may stand in one.** Every pattern that
is read has a letter, contains no blank and no parenthesis, and is no operator in any casing; and
over such patterns every tree whatever is read from some text. -/
theorem Filter.exists_text_iff (lower : LowerCasing) (f : Filter) :
    (∃ text, parse text = .ok f) ↔ ∀ pattern ∈ f.leaves, IsPattern lower pattern := by
  constructor
  · rintro ⟨text, h⟩
    exact isPattern_of_parse h lower
  · intro h
    obtain ⟨ts, e, hscans, he, hderives⟩ := f.spells_spelled h
    refine ⟨String.ofList f.spelled, @parse_of_scans 0 _ _ _ _ ?_ he hderives⟩
    rwa [String.toList_ofList]

/-- A chain that leans to the right has a text, although chains without parentheses lean to the
left; and no text has `Or` as a pattern. -/
theorem Filter.exists_text_iff_latin :
    (∃ text, parse text = .ok (.or (.identifier "a") (.or (.identifier "é") (.identifier "orx")))) ∧
      ¬ ∃ text, parse text = .ok (.identifier "Or") := by
  rw [exists_text_iff .latin, exists_text_iff .latin]
  constructor
  · intro pattern hpattern
    rw [isPattern_iff]
    have hcases : pattern = "a" ∨ pattern = "é" ∨ pattern = "orx" := by
      simpa [leaves] using hpattern
    rcases hcases with rfl | rfl | rfl <;>
      exact ⟨by simp, by simp [isBoundary, isBlank, isParen], by cbv⟩
  · intro h
    exact (h "Or" (by decide)).no_operator (by decide +kernel)

end TagFilter
