import TagFilter.Proofs.Division.Pieces
import TagFilter.Proofs.Grammar.Grafting
import TagFilter.Proofs.Scanning.Joining

/-!
# Putting a text in the place of a pattern

A pattern of a text that spells a filter may be replaced by any other text that spells one, in
parentheses. The new text spells the filter of the old one, with the filter of the inserted text
grafted in the place of the leaf which the pattern spelled (`Filter.parse_replaceToken`). Nothing
that the inserted text contains has an influence on the text around it.

The parentheses part words, so the tokens of the new text are those of its three parts
(`Scans.enclosed`); they make the inserted text a primary, and `Derives.graft` does the rest.
-/

namespace TagFilter

open Grammar

/-- The text with another one in the place of a token. -/
def replaceToken (text : String) (t : Token) (inserted : String) : String :=
  slice text 0 t.first ++ inserted ++ slice text t.behind text.length

/-- The token with another text. -/
def Token.renamed (t : Token) (value : String) : Token := { t with value }

/-- The text in parentheses. -/
def enclose (text : String) : String := "(" ++ text ++ ")"

/-- The grammar sees no difference between the tokens of a text in two places. -/
theorem Scans.moved_gist {start : Nat} {text : List Char} {ts : List Token} {e : Token}
    (h : Scans start text (ts ++ [e])) (place : Nat) :
    ∃ (us : List Token) (e' : Token), Scans place text (us ++ [e']) ∧
      us.map Token.gist = ts.map Token.gist ∧ e'.kind = e.kind := by
  obtain ⟨moved, hmoved, hplaces⟩ := h.moved place
  have hgist := Token.map_gist_of_placedFrom hplaces
  rw [List.map_append] at hgist
  obtain ⟨us, last, rfl, hus, hlast⟩ := List.map_eq_append_iff.mp hgist
  obtain ⟨e', rfl, he'⟩ := List.map_eq_singleton_iff.mp hlast
  exact ⟨us, e', hmoved, hus, Token.kind_eq_of_gist he'⟩

/-- **A text in parentheses keeps its tokens between two others**, and so do the others. -/
theorem Scans.enclosed {a b c : Nat} {left inner right : List Char} {before ts after : List Token}
    {e₁ e₂ e₃ : Token} (hleft : Scans a left (before ++ [e₁])) (hinner : Scans b inner (ts ++ [e₂]))
    (hright : Scans c right (after ++ [e₃])) :
    ∃ (l r : Token) (us behind : List Token) (e : Token),
      Scans a (left ++ '(' :: (inner ++ ')' :: right))
        (before ++ l :: (us ++ r :: (behind ++ [e]))) ∧
      l.kind = .leftParen ∧ us.map Token.gist = ts.map Token.gist ∧ r.kind = .rightParen ∧
      behind.map Token.gist = after.map Token.gist ∧ e.kind = e₃.kind := by
  let p : Nat := a + left.length
  let q : Nat := p + 1 + inner.length
  let l : Token := ⟨.leftParen, "(", p, 0, 0⟩
  let r : Token := ⟨.rightParen, ")", q, 0, 0⟩
  obtain ⟨us, e', hus, hgist, -⟩ := hinner.moved_gist (p + 1)
  obtain ⟨behind, e, hbehind, hgist', he⟩ := hright.moved_gist (q + 1)
  -- from the right to the left, a part at a time
  have hclosing : Scans q (')' :: right) (r :: (behind ++ [e])) :=
    @Scans.token q [] [')'] right r _ (by simp) (.rightParen right) rfl rfl hbehind
  have hinside : Scans (p + 1) (inner ++ ')' :: right) (us ++ r :: (behind ++ [e])) :=
    hus.join hclosing (by simp [isBoundary, isParen])
  have hopening : Scans p ('(' :: (inner ++ ')' :: right)) (l :: (us ++ r :: (behind ++ [e]))) :=
    @Scans.token p [] ['('] _ l _ (by simp) (.leftParen _) rfl rfl hinside
  exact ⟨l, r, us, behind, e, hleft.join hopening (by simp [isBoundary, isParen]), rfl, hgist, rfl,
    hgist', he⟩

/-- The parts of a text around a token. -/
theorem replaceToken_eq {text inserted : String} {t : Token} {left right : List Char}
    (h : text.toList = left ++ (t.value.toList ++ right)) (hfirst : t.first = left.length) :
    replaceToken text t inserted = String.ofList (left ++ (inserted.toList ++ right)) := by
  have hfront : slice text 0 t.first = String.ofList left := by
    have hsplit : text.toList = [] ++ (left ++ (t.value.toList ++ right)) := h
    simpa [hfirst] using slice_eq hsplit
  have hback : slice text t.behind text.length = String.ofList right := by
    have hsplit : text.toList = (left ++ t.value.toList) ++ right := by simp [h]
    have hbehind : t.behind = (left ++ t.value.toList).length := by
      rw [Token.behind, hfirst, List.length_append, String.length_toList]
    rw [hbehind, slice_to_end hsplit]
  rw [replaceToken, hfront, hback, ← String.toList_inj]
  simp

namespace Filter

variable {text inserted : String} {f g : Filter} {before after : List Token} {t : Token}

/-- The tokens around a pattern of a text that spells a filter. -/
theorem exists_around_pattern (hf : parse text = .ok f)
    (htokens : tokenize text = .ok (before ++ t :: after)) (ht : t.kind = .identifier) :
    ∃ (behind : List Token) (last : Token), after = behind ++ [last] ∧ last.kind = .eof ∧
      Scans 0 text.toList (before ++ t :: (behind ++ [last])) ∧
      Derives .disjunction (before ++ t :: behind) f := by
  obtain ⟨body, last, hbody, hlast, hscans, hderives⟩ := exists_of_parse hf
  rw [hbody, Except.ok.injEq] at htokens
  rcases append_eq_append_cons_cases htokens with ⟨behind, rfl, rfl⟩ | ⟨front, -, hend⟩
  · rw [List.append_assoc, List.cons_append] at hscans
    exact ⟨behind, last, rfl, hlast, hscans, hderives⟩
  · -- a pattern is no end mark
    have hmem : t ∈ [last] := by simp [hend]
    rw [List.mem_singleton.mp hmem, hlast] at ht
    cases ht

/-- **Substitution of texts is substitution of filters.** Let a pattern of a text be replaced by
another text in parentheses. What the new text spells is the filter of the text with one leaf
replaced by the filter of the other. The leaf is the one that the pattern spelled: it stands behind
as many leaves as there are patterns before it, and it is the one that changes when only the pattern
is changed. -/
theorem parse_replaceToken (hf : parse text = .ok f) (hg : parse inserted = .ok g)
    (htokens : tokenize text = .ok (before ++ t :: after)) (ht : t.kind = .identifier) :
    parse (replaceToken text t (enclose inserted)) = .ok (f.graft (patterns before).length g) ∧
      f.leaves = patterns before ++ t.value :: patterns after ∧
      (f.graft (patterns before).length g).leaves =
        patterns before ++ (g.leaves ++ patterns after) ∧
      ∀ pattern : String, ofTokens (before ++ t.renamed pattern :: after) =
        .ok (f.graft (patterns before).length (.identifier pattern)) := by
  obtain ⟨behind, last, rfl, hlast, hscans, hderives⟩ := exists_around_pattern hf htokens ht
  obtain ⟨ts, e, -, -, hinner, hinserted⟩ := exists_of_parse hg
  obtain ⟨left, right, htext, hposition, ⟨e₁, -, hleft⟩, hright⟩ := hscans.cut (by simp [ht])
  have hfirst : t.first = left.length := by
    rw [Token.first, hposition, Int.toNat_natCast, Nat.zero_add]
  obtain ⟨l, r, us, behind', e', hnew, hl, hus, hr, hbehind, he'⟩ := hleft.enclosed hinner hright
  -- in parentheses the inserted text is a primary, and so it may stand for the pattern
  have hprimary : Derives .primary (l :: (us ++ [r])) g := .parens hl (hinserted.congr hus) hr
  have hgrafted := hderives.graft ht hprimary rfl
  have hend : patterns (behind ++ [last]) = patterns behind := by simp [patterns, hlast]
  refine ⟨?_, ?_, ?_, fun pattern => ?_⟩
  · have hsame : (before ++ (l :: (us ++ [r]) ++ behind')).map Token.gist =
        (before ++ (l :: (us ++ [r]) ++ behind)).map Token.gist := by simp [hbehind]
    refine @parse_of_scans 0 _ _ e' _ ?_ (he'.trans hlast) (hgrafted.congr hsame)
    have henclosed : (replaceToken text t (enclose inserted)).toList =
        left ++ '(' :: (inserted.toList ++ ')' :: right) := by
      rw [replaceToken_eq htext hfirst, enclose]
      simp
    rw [henclosed]
    simpa using hnew
  · rw [hderives.leaves_eq, patterns_append, patterns_cons_of_identifier ht, hend]
  · rw [hgrafted.leaves_eq, hprimary.leaves_eq, patterns_append, patterns_append, hend]
  · have hpattern : Derives .primary [t.renamed pattern] (.identifier pattern) := .identifier ht
    have hrenamed := hderives.graft ht hpattern rfl
    have hclosed := (ofTokens_eq_ok_iff hrenamed.ne_eof hlast _).mpr hrenamed
    simpa using hclosed

/-- Of two patterns with the same text, the one behind `not` is replaced. The `or` that is put there
does not reach over the parentheses. -/
theorem parse_replaceToken_second :
    let before : List Token := [⟨.identifier, "a", 0, 1, 1⟩, ⟨.and, "and", 2, 1, 3⟩,
      ⟨.not, "not", 6, 1, 7⟩]
    let t : Token := ⟨.identifier, "a", 10, 1, 11⟩
    let after : List Token := [⟨.eof, "", 11, 1, 12⟩]
    parse "a and not a" = .ok (.and (.identifier "a") (.not (.identifier "a"))) ∧
      parse "x or y" = .ok (.or (.identifier "x") (.identifier "y")) ∧
      tokenize "a and not a" = .ok (before ++ t :: after) ∧ t.kind = .identifier ∧
      replaceToken "a and not a" t (enclose "x or y") = "a and not (x or y)" ∧
      parse (replaceToken "a and not a" t (enclose "x or y")) =
        .ok (.and (.identifier "a") (.not (.or (.identifier "x") (.identifier "y")))) := by
  intro before t after
  have hf : parse "a and not a" = .ok (.and (.identifier "a") (.not (.identifier "a"))) := by cbv
  have hg : parse "x or y" = .ok (.or (.identifier "x") (.identifier "y")) := by cbv
  have htokens : tokenize "a and not a" = .ok (before ++ t :: after) := by cbv
  exact ⟨hf, hg, htokens, rfl, by cbv, (parse_replaceToken hf hg htokens rfl).1⟩

end Filter

end TagFilter
