import TagFilter.Evaluation.Selector
import TagFilter.Proofs.Division.Exposure
import TagFilter.Proofs.Division.Pieces
import TagFilter.Proofs.Evaluation.Simulation

/-!
# Filters divided at their outermost operators

What a text selects can be told from the text itself, by dividing it where its outermost operator
stands, without any tree.

* `verdict` — the value of the filter that a text spells, for one item;
* `Division`, `divide` — how a text falls apart: at the `OR`s outside all parentheses if there are
  any, else at the `AND`s, else behind a `NOT` or inside the outer parentheses, else it is one word;
* `Division.verdict` — the value, put together from the verdicts on the pieces;
* `verdict_eq_division` — both agree on every text that spells a filter, and so does every piece.
-/

namespace TagFilter

open Grammar

/-- The value of the filter that a text spells, if it spells one. -/
def verdict (subjects : Subjects) (text : String) : Option Bool :=
  match selector text with
  | .error _ => none
  | .ok select => (select subjects).toOption

/-- Does a text spell a filter that selects the item? -/
def selects (subjects : Subjects) (text : String) : Bool := verdict subjects text = some true

/-- How a text falls apart at its outermost operators. -/
inductive Division where
  /-- Pieces between `OR`s. -/
  | any (pieces : List String)
  /-- Pieces between `AND`s. -/
  | all (pieces : List String)
  /-- What follows a `NOT`. -/
  | negated (piece : String)
  /-- What stands inside the outer parentheses. -/
  | enclosed (piece : String)
  /-- One word. -/
  | word (pattern : String)
  deriving DecidableEq, Repr

namespace Division

/-- The pieces that are texts of their own. -/
def pieces : Division → List String
  | any pieces => pieces
  | all pieces => pieces
  | negated piece => [piece]
  | enclosed piece => [piece]
  | word _ => []

/-- The value, put together from the verdicts on the pieces. -/
def verdict (subjects : Subjects) : Division → Bool
  | any pieces => pieces.any (selects subjects)
  | all pieces => pieces.all (selects subjects)
  | negated piece => !selects subjects piece
  | enclosed piece => selects subjects piece
  | word pattern => pattern ∈ subjects.tags

end Division

/-- The tokens of a kind that stand outside all parentheses. -/
def outermost (kind : Token.Kind) (ts : List Token) : List Token :=
  (exposed ts).filter (·.kind = kind)

/-- The division of a text that has no outermost `OR` and `AND`. Its first token settles it; what
fits nowhere has no division. -/
def divideAtFirst (text : String) : List Token → Option Division
  | [] => none
  | t :: others =>
    match t.kind with
    | .not => some (.negated (slice text t.behind text.length))
    | .leftParen =>
      -- the partner is the last token before the end mark
      match others.dropLast.getLast? with
      | none => none
      | some r =>
        if r.kind = .rightParen then some (.enclosed (slice text t.behind r.first)) else none
    | .identifier => if others.length = 1 then some (.word t.value) else none
    | .and | .or | .rightParen | .eof => none

/-- The division of a text with the given tokens. -/
def divide (text : String) (ts : List Token) : Option Division :=
  if outermost .or ts ≠ [] then some (.any (TagFilter.pieces text (outermost .or ts)))
  else if outermost .and ts ≠ [] then some (.all (TagFilter.pieces text (outermost .and ts)))
  else divideAtFirst text ts

/-! ### Verdicts -/

/-- The verdict on a text is the truth value of its filter. -/
theorem verdict_of_parse {text : String} {f : Filter} (h : Filter.parse text = .ok f)
    (subjects : Subjects) : verdict subjects text = some (f.holds subjects.tags) := by
  rw [verdict, selector, h]
  simp only [Except.map, f.evaluate_eq_holds]
  rfl

theorem selects_of_parse {text : String} {f : Filter} (h : Filter.parse text = .ok f)
    (subjects : Subjects) : selects subjects text = f.holds subjects.tags := by
  rw [selects, verdict_of_parse h]
  simp

/-- The verdicts on texts are the truth values of their filters. -/
theorem map_selects_of_parse {texts : List String} {fs : List Filter}
    (h : texts.map Filter.parse = fs.map .ok) (subjects : Subjects) :
    texts.map (selects subjects) = fs.map fun f => f.holds subjects.tags := by
  induction texts generalizing fs with
  | nil =>
    obtain rfl : fs = [] := by simpa using h.symm
    rfl
  | cons text texts ih =>
    cases fs with
    | nil => simp at h
    | cons f fs =>
      rw [List.map_cons, List.map_cons, List.cons.injEq] at h
      rw [List.map_cons, List.map_cons, selects_of_parse h.1, ih h.2]

/-- A chain of `OR`s holds if one of its operands does. -/
theorem holds_joinAll_or (tags : List String) (f : Filter) (links : List Link) :
    (joinAll .or f links).holds tags = (f :: links.map Link.filter).any (·.holds tags) := by
  induction links generalizing f with
  | nil => simp
  | cons l links ih =>
    rw [joinAll_cons, ih]
    simp [Filter.holds, Bool.or_assoc]

/-- A chain of `AND`s holds if all of its operands do. -/
theorem holds_joinAll_and (tags : List String) (f : Filter) (links : List Link) :
    (joinAll .and f links).holds tags = (f :: links.map Link.filter).all (·.holds tags) := by
  induction links generalizing f with
  | nil => simp
  | cons l links ih =>
    rw [joinAll_cons, ih]
    simp [Filter.holds, Bool.and_assoc]

/-! ### Divisions that fit a filter -/

/-- Every piece of the division spells a filter, and the value that is put together from them is the
truth value of `f`. -/
structure Division.Fits (d : Division) (f : Filter) : Prop where
  spelled : ∀ piece ∈ d.pieces, ∃ g, Filter.parse piece = .ok g
  verdict_eq (subjects : Subjects) : d.verdict subjects = f.holds subjects.tags

/-- Texts that spell filters in this order spell filters. -/
theorem exists_parse_of_map {texts : List String} {fs : List Filter}
    (h : texts.map Filter.parse = fs.map .ok) : ∀ text ∈ texts, ∃ g, Filter.parse text = .ok g := by
  intro text htext
  have hmem : Filter.parse text ∈ fs.map .ok := h ▸ List.mem_map_of_mem htext
  obtain ⟨g, -, hg⟩ := List.mem_map.mp hmem
  exact ⟨g, hg.symm⟩

namespace Division.Fits

theorem any {texts : List String} {f : Filter} {links : List Link}
    (h : texts.map Filter.parse = (f :: links.map Link.filter).map .ok) :
    (Division.any texts).Fits (joinAll .or f links) where
  spelled := exists_parse_of_map h
  verdict_eq := by
    intro subjects
    have hany : texts.any (selects subjects) = (texts.map (selects subjects)).any id := by
      rw [List.any_map]; rfl
    rw [Division.verdict, hany, map_selects_of_parse h, holds_joinAll_or, List.any_map]
    rfl

theorem all {texts : List String} {f : Filter} {links : List Link}
    (h : texts.map Filter.parse = (f :: links.map Link.filter).map .ok) :
    (Division.all texts).Fits (joinAll .and f links) where
  spelled := exists_parse_of_map h
  verdict_eq := by
    intro subjects
    have hall : texts.all (selects subjects) = (texts.map (selects subjects)).all id := by
      rw [List.all_map]; rfl
    rw [Division.verdict, hall, map_selects_of_parse h, holds_joinAll_and, List.all_map]
    rfl

theorem negated {piece : String} {f : Filter} (h : Filter.parse piece = .ok f) :
    (Division.negated piece).Fits (.not f) where
  spelled := by simpa [Division.pieces] using ⟨f, h⟩
  verdict_eq := by
    intro subjects
    rw [Division.verdict, selects_of_parse h, Filter.holds]

theorem enclosed {piece : String} {f : Filter} (h : Filter.parse piece = .ok f) :
    (Division.enclosed piece).Fits f where
  spelled := by simpa [Division.pieces] using ⟨f, h⟩
  verdict_eq := by
    intro subjects
    rw [Division.verdict, selects_of_parse h]

theorem word (pattern : String) : (Division.word pattern).Fits (.identifier pattern) where
  spelled := by simp [Division.pieces]
  verdict_eq _ := rfl

end Division.Fits

/-! ### The division of a derived text -/

section

variable {text : String} {body : List Token} {last : Token} {f : Filter}

/-- The end mark is no outermost operator. -/
theorem outermost_concat {kind : Token.Kind} (hbody : Balanced body) (hlast : last.kind = .eof)
    (hkind : kind ≠ .eof) : outermost kind (body ++ [last]) = (exposed body).filter (·.kind = kind) := by
  have hend : (exposed [last]).filter (·.kind = kind) = [] := by
    rw [exposed_cons (by simp [hlast]) (by simp [hlast])]
    simp [exposed, exposedFrom, hlast, hkind.symm]
  rw [outermost, hbody.exposed_append, List.filter_append, hend, List.append_nil]

/-- The outermost operators of a derivation that hides them are none. -/
theorem outermost_eq_nil {p : Phrase} {kind : Token.Kind} (h : Derives p body f)
    (hhides : kind ∈ p.hides) (hlast : last.kind = .eof) (hkind : kind ≠ .eof) :
    outermost kind (body ++ [last]) = [] := by
  rw [outermost_concat h.balanced hlast hkind, h.filter_exposed_eq_nil hhides]

/-- Behind a `NOT` stands the text of its operand. -/
theorem divideAtFirst_not {t : Token} {ts : List Token} (ht : t.kind = .not)
    (inner : Derives .negation ts f) (hlast : last.kind = .eof)
    (hscans : Scans 0 text.toList (t :: (ts ++ [last]))) :
    ∃ d, divideAtFirst text (t :: (ts ++ [last])) = some d ∧ d.Fits (.not f) := by
  -- the text is cut at the `NOT`; nothing but blanks stands in front of it
  obtain ⟨-, front, right, htext, hbehind, hright⟩ :=
    @Scans.cut_slice text [] text.toList [] _ t rfl hscans (by simp [ht])
  have hpiece : Filter.parse (slice text t.behind text.length) = .ok f := by
    rw [hbehind, slice_to_end htext]
    refine Filter.parse_of_scans (by rwa [String.toList_ofList]) hlast ?_
    exact inner.conjunction_of_negation.disjunction_of_conjunction
  exact ⟨_, by rw [divideAtFirst, ht], .negated hpiece⟩

/-- A primary is one word, or it stands in parentheses. -/
theorem divideAtFirst_primary (h : Derives .primary body f)
    (hscans : Scans 0 text.toList (body ++ [last])) :
    ∃ d, divideAtFirst text (body ++ [last]) = some d ∧ d.Fits f := by
  cases h with
  | @identifier t ht => exact ⟨_, by simp [divideAtFirst, ht], .word t.value⟩
  | @parens l r ts _ hl inner hr =>
    rw [List.cons_append, List.append_assoc, List.singleton_append] at hscans
    -- one cut behind the opening parenthesis, and in what follows one in front of its partner
    obtain ⟨-, front, right, htext, hbehind, hright⟩ :=
      @Scans.cut_slice text [] text.toList [] _ l rfl hscans (by simp [hl])
    obtain ⟨⟨e, he, hinside⟩, -⟩ := hright.cut_slice htext (by simp [hr])
    have hpiece : Filter.parse (slice text l.behind r.first) = .ok f := by
      rw [hbehind]
      exact Filter.parse_of_scans hinside he inner
    refine ⟨_, ?_, .enclosed hpiece⟩
    rw [List.cons_append, divideAtFirst, hl]
    simp [hr]

/-- A negation is divided by its first token. -/
theorem divide_negation (h : Derives .negation body f) (hlast : last.kind = .eof)
    (hscans : Scans 0 text.toList (body ++ [last])) :
    ∃ d, divide text (body ++ [last]) = some d ∧ d.Fits f := by
  have hor : outermost .or (body ++ [last]) = [] :=
    outermost_eq_nil h (by simp [Phrase.hides]) hlast (by simp)
  have hand : outermost .and (body ++ [last]) = [] :=
    outermost_eq_nil h (by simp [Phrase.hides]) hlast (by simp)
  rw [divide, hor, hand, if_neg (by simp), if_neg (by simp)]
  cases h with
  | not ht inner => exact divideAtFirst_not ht inner hlast hscans
  | operand inner => exact divideAtFirst_primary inner hscans

/-- A conjunction is divided at its `AND`s, if it has any. -/
theorem divide_conjunction (h : Derives .conjunction body f) (hlast : last.kind = .eof)
    (hscans : Scans 0 text.toList (body ++ [last])) :
    ∃ d, divide text (body ++ [last]) = some d ∧ d.Fits f := by
  have hor : outermost .or (body ++ [last]) = [] :=
    outermost_eq_nil h (by simp [Phrase.hides]) hlast (by simp)
  have hbalanced := h.balanced
  cases h with
  | @conjunction ts f links first operators operands =>
    by_cases hlinks : links = []
    · -- without links it is the negation alone
      subst hlinks
      rw [spelling_nil, List.append_nil] at hscans ⊢
      exact divide_negation first hlast hscans
    · have hand : outermost .and (ts ++ spelling links ++ [last]) = links.map Link.operator := by
        rw [outermost_concat hbalanced hlast (by simp)]
        exact filter_exposed_chain (.inl rfl) (by simp [Phrase.hides]) first operators operands
      rw [List.append_assoc] at hscans
      have hpieces := @parse_pieces text [] text.toList ts f links last rfl hscans hlast
        first.conjunction_of_negation.disjunction_of_conjunction
        (fun l hl => by simp [operators l hl])
        (fun l hl => (operands l hl).conjunction_of_negation.disjunction_of_conjunction)
      refine ⟨_, ?_, .all hpieces⟩
      rw [divide, hor, hand, if_neg (by simp), if_pos (by simpa using hlinks)]
      rfl

/-- A disjunction is divided at its `OR`s, if it has any. -/
theorem divide_disjunction (h : Derives .disjunction body f) (hlast : last.kind = .eof)
    (hscans : Scans 0 text.toList (body ++ [last])) :
    ∃ d, divide text (body ++ [last]) = some d ∧ d.Fits f := by
  have hbalanced := h.balanced
  cases h with
  | @disjunction ts f links first operators operands =>
    by_cases hlinks : links = []
    · -- without links it is the conjunction alone
      subst hlinks
      rw [spelling_nil, List.append_nil] at hscans ⊢
      exact divide_conjunction first hlast hscans
    · have hor : outermost .or (ts ++ spelling links ++ [last]) = links.map Link.operator := by
        rw [outermost_concat hbalanced hlast (by simp)]
        exact filter_exposed_chain (.inr rfl) (by simp [Phrase.hides]) first operators operands
      rw [List.append_assoc] at hscans
      have hpieces := @parse_pieces text [] text.toList ts f links last rfl hscans hlast
        first.disjunction_of_conjunction (fun l hl => by simp [operators l hl])
        (fun l hl => (operands l hl).disjunction_of_conjunction)
      refine ⟨_, ?_, .any hpieces⟩
      rw [divide, hor, if_pos (by simpa using hlinks)]
      rfl

end

/-- **What a text selects is told by its pieces.** A text that spells a filter falls apart at its
outermost operators, every piece spells a filter by itself, and the value of the filter for an item
is put together from the values for the pieces: some piece between `OR`s, else all pieces between
`AND`s, else not the text behind a `NOT`, else the text inside the parentheses, else the one word. -/
theorem verdict_eq_division {text : String} {f : Filter} (h : Filter.parse text = .ok f) :
    ∃ ts d, tokenize text = .ok ts ∧ divide text ts = some d ∧
      (∀ piece ∈ d.pieces, ∃ g, Filter.parse piece = .ok g) ∧
      ∀ subjects, verdict subjects text = some (d.verdict subjects) := by
  obtain ⟨body, last, hts, hlast, hscans, hf⟩ := Filter.exists_of_parse h
  obtain ⟨d, hd, hfits⟩ := divide_disjunction hf hlast hscans
  refine ⟨body ++ [last], d, hts, hd, hfits.spelled, fun subjects => ?_⟩
  rw [verdict_of_parse h, hfits.verdict_eq]

/-- `NOT` and `AND` stay inside a piece between `OR`s, and so does an `OR` in parentheses. -/
theorem verdict_eq_division_mixed :
    let text := "slow or not(unit OR fast)and linux"
    (∃ f, Filter.parse text = .ok f) ∧ ∃ ts d, tokenize text = .ok ts ∧ divide text ts = some d ∧
      (∀ piece ∈ d.pieces, ∃ g, Filter.parse piece = .ok g) ∧
      ∀ subjects, verdict subjects text = some (d.verdict subjects) := by
  intro text
  have hparse : Filter.parse text = .ok (.or (.identifier "slow") (.and
      (.not (.or (.identifier "unit") (.identifier "fast"))) (.identifier "linux"))) := by cbv
  exact ⟨⟨_, hparse⟩, verdict_eq_division hparse⟩

example : (tokenize "slow or not(unit OR fast)and linux").toOption.bind
    (divide "slow or not(unit OR fast)and linux") =
      some (.any ["slow ", " not(unit OR fast)and linux"]) := by cbv

end TagFilter
