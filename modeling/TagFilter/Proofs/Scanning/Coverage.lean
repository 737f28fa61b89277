import TagFilter.Proofs.Division.Pieces
import TagFilter.Proofs.Scanning.LowerCasing

/-!
# The tokens cover the text

What reading promises about a text, said by places alone:

* `Covers` — every token is the piece of the text that stands at its place, the pieces follow one
  another without overlap, nothing but blanks stands outside them, every piece is a parenthesis or a
  word that cannot be made longer, and one end mark stands behind all of it;
* `tokenize_covers` — reading never fails, its tokens cover the text, and no other tokens do.

`Scans` says the same by cutting a text up from left to right, and is what reading is already known
to satisfy. The bridge is `scans_iff`: tokens are scanned from a place on exactly if each of them is
a lexeme where it stands (`Token.LiesIn`) and they lie on the rest of the text one behind the other
(`Tiles`). It goes by induction on the tokens, and `Tiles.cons_iff` is its step.

A scan looks at nothing in front of the place where it begins, so that a word could not be longer to
the left is no part of `Scans`. It follows from the rest (`isBoundary_of_before`): a letter in front
of the word would belong to another word, which ends where this one begins.
-/

namespace TagFilter

/-- The token is a word that cannot be made longer on either side, and its kind is the word's. -/
structure WordAt (lower : LowerCasing) (text : String) (t : Token) : Prop where
  letters : ∀ c ∈ t.value.toList, isBoundary c = false
  /-- The character in front of the word, if there is one, parts words. -/
  before (i : Nat) (hi : i + 1 = t.first) : ∀ c ∈ text.toList[i]?, isBoundary c = true
  /-- So does the character behind it. -/
  after : ∀ c ∈ text.toList[t.behind]?, isBoundary c = true
  kind : WordKind lower t.value t.kind

/-- The tokens `body` and the end mark `last` cover the text. -/
structure Covers (lower : LowerCasing) (text : String) (body : List Token) (last : Token) :
    Prop where
  last_kind : last.kind = .eof
  last_value : last.value = ""
  last_position : last.position = ↑text.length
  kind_ne_eof : ∀ t ∈ body, t.kind ≠ .eof
  value_ne_empty : ∀ t ∈ body, t.value ≠ ""
  /-- Places are counted from the beginning of the text. -/
  position_eq : ∀ t ∈ body, t.position = ↑t.first
  slice_eq : ∀ t ∈ body, slice text t.first t.behind = t.value
  ordered : body.Pairwise fun t u => t.behind ≤ u.first
  /-- A character that belongs to no token is a blank. -/
  blank (i : Nat) (hi : ∀ t ∈ body, i < t.first ∨ t.behind ≤ i) :
    ∀ c ∈ text.toList[i]?, isBlank c = true
  shape : ∀ t ∈ body, (t.kind = .leftParen ∧ t.value = "(") ∨
    (t.kind = .rightParen ∧ t.value = ")") ∨ WordAt lower text t

/-- What a token is, what it was read from and where. -/
def Token.placed (t : Token) : Token.Kind × String × Int := (t.kind, t.value, t.position)

theorem Token.first_le_behind (t : Token) : t.first ≤ t.behind := Nat.le_add_right _ _

/-! ### A token at its place -/

/-- The lexemes are the parentheses and the longest words. -/
theorem lexeme_iff {kind : Token.Kind} {chs rest : List Char} :
    Lexeme kind chs rest ↔ (kind = .leftParen ∧ chs = ['(']) ∨ (kind = .rightParen ∧ chs = [')']) ∨
      (chs ≠ [] ∧ (∀ c ∈ chs, isBoundary c = false) ∧ (∀ c ∈ rest.head?, isBoundary c = true) ∧
        kind = kindOfWord chs) := by
  constructor
  · rintro (_ | _ | ⟨hne, hchs, hrest⟩)
    · exact .inl ⟨rfl, rfl⟩
    · exact .inr (.inl ⟨rfl, rfl⟩)
    · exact .inr (.inr ⟨hne, hchs, hrest, rfl⟩)
  · rintro (⟨rfl, rfl⟩ | ⟨rfl, rfl⟩ | ⟨hne, hchs, hrest, rfl⟩)
    · exact .leftParen rest
    · exact .rightParen rest
    · exact .word hne hchs hrest

/-- The token is a lexeme of the text, at its place. -/
def Token.LiesIn (text : String) (t : Token) : Prop :=
  ∃ left right, text.toList = left ++ (t.value.toList ++ right) ∧ t.position = ↑left.length ∧
    Lexeme t.kind t.value.toList right

/-- Around a slice stand the text in front of it and the text behind it. -/
theorem toList_eq_of_slice_eq {text value : String} {first behind : Nat} (hle : first ≤ behind)
    (h : slice text first behind = value) :
    text.toList = text.toList.take first ++ (value.toList ++ text.toList.drop behind) := by
  have htake : (text.toList.take behind).take first = text.toList.take first := by
    rw [List.take_take, Nat.min_eq_left hle]
  rw [← h, slice, String.toList_ofList, ← List.append_assoc, ← htake, List.take_append_drop,
    List.take_append_drop]

/-- **A token lies in a text** if it is the slice at its place, and this is a parenthesis or a word
that could not go on. -/
theorem Token.liesIn_iff {text : String} {t : Token} :
    t.LiesIn text ↔ t.value ≠ "" ∧ t.position = ↑t.first ∧ slice text t.first t.behind = t.value ∧
      ((t.kind = .leftParen ∧ t.value = "(") ∨ (t.kind = .rightParen ∧ t.value = ")") ∨
        ((∀ c ∈ t.value.toList, isBoundary c = false) ∧
          (∀ c ∈ text.toList[t.behind]?, isBoundary c = true) ∧
          t.kind = kindOfWord t.value.toList)) := by
  have hparen : ∀ s : String, t.value = s ↔ t.value.toList = s.toList := fun s => by
    rw [String.toList_inj]
  constructor
  · rintro ⟨left, right, htext, hposition, hlexeme⟩
    have hfirst : t.first = left.length := by rw [Token.first, hposition, Int.toNat_natCast]
    have hbehind : t.behind = left.length + t.value.toList.length := by
      rw [Token.behind, hfirst, String.length_toList]
    have hafter : text.toList[t.behind]? = right.head? := by
      rw [htext, hbehind, ← List.append_assoc, ← List.length_append,
        List.getElem?_append_right (Nat.le_refl _), Nat.sub_self, List.head?_eq_getElem?]
    have hne : t.value ≠ "" := fun h => hlexeme.ne_nil (by rw [h]; rfl)
    refine ⟨hne, by rw [hfirst, hposition], ?_, ?_⟩
    · rw [hbehind, hfirst, slice_eq htext, String.ofList_toList]
    · rw [hparen, hparen, hafter]
      rcases lexeme_iff.mp hlexeme with h | h | ⟨-, hchs, hrest, hkind⟩
      · exact .inl h
      · exact .inr (.inl h)
      · exact .inr (.inr ⟨hchs, hrest, hkind⟩)
  · rintro ⟨hne, hposition, hslice, hshape⟩
    have htext := toList_eq_of_slice_eq t.first_le_behind hslice
    have hvalue : t.value.toList ≠ [] := fun h => hne (String.toList_eq_nil_iff.mp h)
    -- a slice that is not empty begins inside the text
    have hlength : (text.toList.take t.first).length = t.first := by
      rw [List.length_take, Nat.min_eq_left]
      have hpos : 0 < t.value.toList.length := List.length_pos_iff.mpr hvalue
      rw [← hslice, slice, String.toList_ofList, List.length_drop, List.length_take] at hpos
      omega
    refine ⟨_, _, htext, by rw [hlength, hposition], lexeme_iff.mpr ?_⟩
    rw [hparen, hparen, ← List.head?_drop] at hshape
    rcases hshape with h | h | ⟨hchs, hrest, hkind⟩
    · exact .inl h
    · exact .inr (.inl h)
    · exact .inr (.inr ⟨hvalue, hchs, hrest, hkind⟩)

/-! ### Tokens one behind the other -/

/-- From the place `start` on, the tokens follow one another, with nothing but blanks outside. -/
structure Tiles (text : String) (start : Nat) (body : List Token) : Prop where
  start_le : ∀ t ∈ body, start ≤ t.first
  ordered : body.Pairwise fun t u => t.behind ≤ u.first
  blank (i : Nat) (hstart : start ≤ i) (hi : ∀ t ∈ body, i < t.first ∨ t.behind ≤ i) :
    ∀ c ∈ text.toList[i]?, isBlank c = true

/-- Up to the first token there are blanks, and the others follow behind it. -/
theorem Tiles.cons_iff {text : String} {start : Nat} {t : Token} {body : List Token} :
    Tiles text start (t :: body) ↔ start ≤ t.first ∧
      (∀ i, start ≤ i → i < t.first → ∀ c ∈ text.toList[i]?, isBlank c = true) ∧
      Tiles text t.behind body := by
  have ht := t.first_le_behind
  constructor
  · intro h
    obtain ⟨hbehind, hordered⟩ := List.pairwise_cons.mp h.ordered
    have hstart := h.start_le t (by simp)
    refine ⟨hstart, fun i hi hlt => ?_, hbehind, hordered, fun i hi hout => ?_⟩
    · refine h.blank i hi fun u hu => ?_
      rcases List.mem_cons.mp hu with rfl | hu
      · exact .inl hlt
      · have hle := hbehind u hu
        exact .inl (by omega)
    · refine h.blank i (by omega) fun u hu => ?_
      rcases List.mem_cons.mp hu with rfl | hu
      · exact .inr hi
      · exact hout u hu
  · rintro ⟨hstart, hgap, h⟩
    refine ⟨fun u hu => ?_, List.pairwise_cons.mpr ⟨h.start_le, h.ordered⟩, fun i hi hout => ?_⟩
    · rcases List.mem_cons.mp hu with rfl | hu
      · exact hstart
      · have hle := h.start_le u hu
        omega
    · -- outside of `t` is in front of it or behind it
      rcases hout t (by simp) with hlt | hle
      · exact hgap i hi hlt
      · exact h.blank i hle fun u hu => hout u (List.mem_cons_of_mem _ hu)

/-- Two tokens are the same, or one of them ends before the other begins. -/
theorem Tiles.apart {text : String} {start : Nat} {body : List Token} (h : Tiles text start body)
    {t u : Token} (ht : t ∈ body) (hu : u ∈ body) :
    t = u ∨ t.behind ≤ u.first ∨ u.behind ≤ t.first := by
  induction body generalizing start with
  | nil => simp at ht
  | cons a body ih =>
    obtain ⟨-, -, hbody⟩ := Tiles.cons_iff.mp h
    rcases List.mem_cons.mp ht with rfl | ht' <;> rcases List.mem_cons.mp hu with rfl | hu'
    · exact .inl rfl
    · exact .inr (.inl (hbody.start_le u hu'))
    · exact .inr (.inr (hbody.start_le t ht'))
    · exact ih hbody ht' hu'

/-- The characters of a piece are those at its places. -/
theorem forall_mem_piece {P : Char → Prop} {before piece after : List Char} :
    (∀ i, before.length ≤ i → i < before.length + piece.length →
      ∀ c ∈ (before ++ (piece ++ after))[i]?, P c) ↔ ∀ c ∈ piece, P c := by
  have hget : ∀ i < piece.length,
      (before ++ (piece ++ after))[before.length + i]? = piece[i]? := by
    intro i hi
    rw [List.getElem?_append_right (by omega), Nat.add_sub_cancel_left,
      List.getElem?_append_left hi]
  constructor
  · intro h c hc
    obtain ⟨i, hi, rfl⟩ := List.getElem_of_mem hc
    refine h (before.length + i) (by omega) (by omega) _ ?_
    rw [hget i hi, List.getElem?_eq_getElem hi]
    rfl
  · intro h i hle hlt c hc
    obtain ⟨j, rfl⟩ := Nat.exists_eq_add_of_le hle
    rw [hget j (by omega)] at hc
    exact h c (List.mem_of_getElem? hc)

/-- A token lies in the text behind blanks exactly if the text goes on with these blanks and it. -/
theorem liesIn_behind_blanks_iff {text : String} {t : Token} {before chars : List Char}
    (htext : text.toList = before ++ chars) :
    (t.LiesIn text ∧ before.length ≤ t.first ∧
      ∀ i, before.length ≤ i → i < t.first → ∀ c ∈ text.toList[i]?, isBlank c = true) ↔
    ∃ blanks rest, chars = blanks ++ (t.value.toList ++ rest) ∧
      (∀ c ∈ blanks, isBlank c = true) ∧ Lexeme t.kind t.value.toList rest ∧
      t.position = ↑(before.length + blanks.length) := by
  constructor
  · rintro ⟨⟨left, right, hsplit, hposition, hlexeme⟩, hstart, hgap⟩
    have hfirst : t.first = left.length := by rw [Token.first, hposition, Int.toNat_natCast]
    -- what stands between the two places is the end of what stands in front of the token
    obtain ⟨blanks, rfl⟩ : before <+: left :=
      List.prefix_of_prefix_length_le ⟨chars, htext.symm⟩ ⟨_, hsplit.symm⟩ (hfirst ▸ hstart)
    have hchars : chars = blanks ++ (t.value.toList ++ right) := by
      rw [htext, List.append_assoc] at hsplit
      exact List.append_cancel_left hsplit
    rw [hfirst, List.length_append, htext, hchars] at hgap
    refine ⟨blanks, right, hchars, forall_mem_piece.mp hgap, hlexeme, ?_⟩
    rw [hposition, List.length_append]
  · rintro ⟨blanks, rest, rfl, hblanks, hlexeme, hposition⟩
    have hfirst : t.first = before.length + blanks.length := by
      rw [Token.first, hposition, Int.toNat_natCast]
    refine ⟨⟨before ++ blanks, rest, by simp [htext], by simp [hposition], hlexeme⟩, by omega, ?_⟩
    rw [hfirst, htext]
    exact forall_mem_piece.mpr hblanks

/-- **Scanning is covering.** From a place on, tokens are scanned exactly if each of them lies in
the text and they follow one another from that place on, up to the end mark. -/
theorem scans_iff {text : String} {last : Token} {body : List Token} {before chars : List Char}
    (htext : text.toList = before ++ chars) :
    Scans before.length chars (body ++ [last]) ↔ (∀ t ∈ body, t.LiesIn text) ∧
      Tiles text before.length body ∧ last.kind = .eof ∧ last.value = "" ∧
      last.position = ↑text.length := by
  induction body generalizing before chars with
  | nil =>
    have hlength : text.length = before.length + chars.length := by
      rw [← String.length_toList, htext, List.length_append]
    -- the text goes on with blanks up to its end
    have hblank : Tiles text before.length [] ↔ ∀ c ∈ chars, isBlank c = true := by
      have hpiece := @forall_mem_piece (isBlank · = true) before chars []
      rw [List.append_nil, ← htext] at hpiece
      rw [← hpiece]
      refine ⟨fun h i hi _ => h.blank i hi (by simp), fun h => ⟨by simp, .nil, ?_⟩⟩
      intro i hi _ c hc
      have hlt : i < text.toList.length := (List.getElem?_eq_some_iff.mp hc).1
      exact h i hi (by rwa [String.length_toList, hlength] at hlt) c hc
    rw [List.nil_append, scans_singleton_iff, hblank, hlength]
    simp
  | cons t body ih =>
    have hbehind : ∀ {blanks : List Char}, t.position = ↑(before.length + blanks.length) →
        t.behind = (before ++ (blanks ++ t.value.toList)).length := by
      intro blanks hposition
      rw [Token.behind, Token.first, hposition, Int.toNat_natCast]
      simp [Nat.add_assoc, String.length_toList]
    have hstep : ∀ {blanks rest : List Char}, chars = blanks ++ (t.value.toList ++ rest) →
        t.position = ↑(before.length + blanks.length) →
        (Scans (before.length + blanks.length + t.value.length) rest (body ++ [last]) ↔
          (∀ u ∈ body, u.LiesIn text) ∧ Tiles text t.behind body ∧ last.kind = .eof ∧
            last.value = "" ∧ last.position = ↑text.length) := by
      intro blanks rest hchars hposition
      have htext' : text.toList = before ++ (blanks ++ t.value.toList) ++ rest := by
        simp [htext, hchars]
      rw [hbehind hposition, ← ih htext']
      simp [Nat.add_assoc, String.length_toList]
    rw [List.cons_append, scans_cons_iff (by simp), List.forall_mem_cons, Tiles.cons_iff]
    constructor
    · rintro ⟨blanks, rest, hchars, hblanks, hlexeme, hposition, others⟩
      obtain ⟨hlies, hstart, hgap⟩ :=
        (liesIn_behind_blanks_iff htext).mpr ⟨blanks, rest, hchars, hblanks, hlexeme, hposition⟩
      obtain ⟨hothers, htiles, hlast⟩ := (hstep hchars hposition).mp others
      exact ⟨⟨hlies, hothers⟩, ⟨hstart, hgap, htiles⟩, hlast⟩
    · rintro ⟨⟨hlies, hothers⟩, ⟨hstart, hgap, htiles⟩, hlast⟩
      obtain ⟨blanks, rest, hchars, hblanks, hlexeme, hposition⟩ :=
        (liesIn_behind_blanks_iff htext).mp ⟨hlies, hstart, hgap⟩
      exact ⟨blanks, rest, hchars, hblanks, hlexeme, hposition,
        (hstep hchars hposition).mpr ⟨hothers, htiles, hlast⟩⟩

/-! ### In front of a word -/

/-- Where a token begins, the text has its first character. -/
theorem Token.LiesIn.getElem?_first {text : String} {t : Token} (h : t.LiesIn text) :
    text.toList[t.first]? = t.value.toList.head? := by
  obtain ⟨left, right, htext, hposition, hlexeme⟩ := h
  obtain ⟨c, cs, hvalue⟩ := List.exists_cons_of_ne_nil hlexeme.ne_nil
  rw [Token.first, hposition, Int.toNat_natCast, htext, hvalue,
    List.getElem?_append_right (Nat.le_refl _), Nat.sub_self]
  rfl

/-- **A word cannot be made longer to the left.** The character in front of it is a blank or the
last one of another token; and if that were a word too, it would not have ended there. -/
theorem isBoundary_of_before {text : String} {start : Nat} {body : List Token} {t : Token}
    (hlies : ∀ u ∈ body, u.LiesIn text) (htiles : Tiles text start body) (ht : t ∈ body)
    (hletters : ∀ c ∈ t.value.toList, isBoundary c = false) {i : Nat} (hstart : start ≤ i)
    (hi : i + 1 = t.first) : ∀ c ∈ text.toList[i]?, isBoundary c = true := by
  intro c hc
  by_cases hout : ∀ u ∈ body, i < u.first ∨ u.behind ≤ i
  · exact isBoundary_of_isBlank (htiles.blank i hstart hout c hc)
  · push Not at hout
    obtain ⟨u, hu, hfirst, hbehind⟩ := hout
    -- `u` holds the character and so ends where `t` begins
    have hmeet : u.behind = t.first := by
      have hle := t.first_le_behind
      rcases htiles.apart hu ht with rfl | h | h <;> omega
    have hparen : ∀ s : String, s.length = 1 → u.value = s → s.toList.head? = some c := by
      intro s hs hvalue
      have hlast : u.first = i := by
        rw [Token.behind, hvalue, hs] at hmeet
        omega
      rw [← hvalue, ← (hlies u hu).getElem?_first, hlast]
      exact hc
    obtain ⟨-, -, -, ⟨-, hvalue⟩ | ⟨-, hvalue⟩ | ⟨-, hafter, -⟩⟩ := Token.liesIn_iff.mp (hlies u hu)
    · obtain rfl : '(' = c := by simpa using hparen "(" rfl hvalue
      rfl
    · obtain rfl : ')' = c := by simpa using hparen ")" rfl hvalue
      rfl
    · -- behind the word `u` stands the first letter of `t`
      obtain ⟨d, hd⟩ : ∃ d, t.value.toList.head? = some d := by
        have hne := (Token.liesIn_iff.mp (hlies t ht)).1
        exact Option.isSome_iff_exists.mp (by simpa using hne)
      rw [hmeet, (hlies t ht).getElem?_first] at hafter
      have hboundary := hafter d hd
      rw [hletters d (List.mem_of_mem_head? hd)] at hboundary
      contradiction

/-! ### Covering -/

/-- **Tokens cover a text exactly if they are scanned there.** -/
theorem covers_iff_scans {lower : LowerCasing} {text : String} {body : List Token} {last : Token} :
    Covers lower text body last ↔ Scans 0 text.toList (body ++ [last]) := by
  have hiff := @scans_iff text last body [] text.toList rfl
  rw [List.length_nil] at hiff
  rw [hiff]
  constructor
  · intro h
    refine ⟨fun t ht => Token.liesIn_iff.mpr ?_, ⟨by simp, h.ordered, fun i _ => h.blank i⟩,
      h.last_kind, h.last_value, h.last_position⟩
    refine ⟨h.value_ne_empty t ht, h.position_eq t ht, h.slice_eq t ht, ?_⟩
    rcases h.shape t ht with hparen | hparen | hword
    · exact .inl hparen
    · exact .inr (.inl hparen)
    · exact .inr (.inr ⟨hword.letters, hword.after, (wordKind_iff ..).mp hword.kind⟩)
  · rintro ⟨hlies, htiles, hkind, hvalue, hposition⟩
    have hat := fun t ht => Token.liesIn_iff.mp (hlies t ht)
    exact
      { last_kind := hkind
        last_value := hvalue
        last_position := hposition
        kind_ne_eof := fun t ht => by
          obtain ⟨_, _, _, _, hlexeme⟩ := hlies t ht
          exact hlexeme.kind_ne_eof
        value_ne_empty := fun t ht => (hat t ht).1
        position_eq := fun t ht => (hat t ht).2.1
        slice_eq := fun t ht => (hat t ht).2.2.1
        ordered := htiles.ordered
        blank := fun i hi => htiles.blank i (Nat.zero_le i) hi
        shape := fun t ht => by
          rcases (hat t ht).2.2.2 with hparen | hparen | ⟨hletters, hafter, hword⟩
          · exact .inl hparen
          · exact .inr (.inl hparen)
          · refine .inr (.inr ⟨hletters, fun i hi => ?_, hafter, (wordKind_iff ..).mpr hword⟩)
            exact isBoundary_of_before hlies htiles ht hletters (Nat.zero_le i) hi }

/-- **Reading covers every text, in the one possible way.** No text is refused; the tokens that are
read cover it, and all tokens that do have the same kinds, texts and places. -/
theorem tokenize_covers (lower : LowerCasing) (text : String) :
    ∃ body last, tokenize text = .ok (body ++ [last]) ∧ Covers lower text body last ∧
      ∀ body' last', Covers lower text body' last' →
        (body' ++ [last']).map Token.placed = (body ++ [last]).map Token.placed := by
  obtain ⟨ts, hts, hscans⟩ := (Cursor.start text).tokens_scans
  obtain ⟨body, last, rfl, -, -⟩ := hscans.closed
  refine ⟨body, last, hts, covers_iff_scans.mpr hscans, fun body' last' h => ?_⟩
  have hplaced : Token.placed = Token.placedFrom 0 := by
    funext t
    simp [Token.placed, Token.placedFrom]
  rw [hplaced]
  exact (covers_iff_scans.mp h).unique hscans

/-- `NoT(é orx)` and a line break: parentheses end words without blanks, `orx` is no operator, and
the break belongs to no token. -/
theorem tokenize_covers_latin :
    let text := "NoT(é orx)\r\n"
    ∃ body last, tokenize text = .ok (body ++ [last]) ∧ Covers .latin text body last ∧
      (body ++ [last]).map Token.placed = [(.not, "NoT", 0), (.leftParen, "(", 3),
        (.identifier, "é", 4), (.identifier, "orx", 6), (.rightParen, ")", 9), (.eof, "", 12)] := by
  intro text
  obtain ⟨body, last, htokens, hcovers, -⟩ := tokenize_covers .latin text
  refine ⟨body, last, htokens, hcovers, ?_⟩
  have hread : (tokenize text).toOption.map (·.map Token.placed) = some [(.not, "NoT", 0),
      (.leftParen, "(", 3), (.identifier, "é", 4), (.identifier, "orx", 6),
      (.rightParen, ")", 9), (.eof, "", 12)] := by cbv
  rw [htokens] at hread
  exact Option.some.inj hread

end TagFilter
