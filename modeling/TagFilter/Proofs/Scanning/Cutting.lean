import TagFilter.Proofs.Scanning.Segmentation

/-!
# Cutting a text at a token

If a text is cut in front of a token and behind it, the two pieces have by themselves the tokens
that stood before and behind it in the whole (`Scans.cut`). The piece in front gets an end mark of
its own. Nothing at the cut can change: what follows a word in the piece either followed it in the
whole, or the piece ends there, and a word may end at the end of a text.

`Scans.closed` says that the tokens of every text are closed: the end mark is the last one and the
only one.
-/

namespace TagFilter

/-- A lexeme stays one if the text after it is cut short. -/
theorem Lexeme.of_append {kind : Token.Kind} {chs left right : List Char}
    (h : Lexeme kind chs (left ++ right)) : Lexeme kind chs left := by
  cases h with
  | leftParen => exact .leftParen left
  | rightParen => exact .rightParen left
  | word hne hchs hrest =>
    refine .word hne hchs fun c hc => ?_
    cases left with
    | nil => simp at hc
    | cons d left => exact hrest c hc

namespace Scans

variable {start : Nat} {text : List Char}

/-- The tokens of a text end with an end mark, and there is no other. -/
theorem closed {ts : List Token} (h : Scans start text ts) :
    ∃ body last, ts = body ++ [last] ∧ last.kind = .eof ∧ ∀ t ∈ body, t.kind ≠ .eof := by
  induction h with
  | @done start blanks t _ hkind _ _ => exact ⟨[], t, rfl, hkind, by simp⟩
  | @token start blanks chs rest t ts _ hlexeme _ _ _ ih =>
    obtain ⟨body, last, rfl, hlast, hbody⟩ := ih
    refine ⟨t :: body, last, rfl, hlast, fun u hu => ?_⟩
    rcases List.mem_cons.mp hu with rfl | hu
    · exact hlexeme.kind_ne_eof
    · exact hbody u hu

/-- **A text can be cut at every token.** The piece in front of the token has the tokens before it,
and the piece behind it has the tokens that follow. -/
theorem cut {before behind : List Token} {t : Token} (h : Scans start text (before ++ t :: behind))
    (ht : t.kind ≠ .eof) :
    ∃ left right, text = left ++ (t.value.toList ++ right) ∧ t.position = ↑(start + left.length) ∧
      (∃ e, e.kind = .eof ∧ Scans start left (before ++ [e])) ∧
      Scans (start + left.length + t.value.length) right behind := by
  induction before generalizing start text with
  | nil =>
    rw [List.nil_append] at h
    cases h with
    | done _ hkind _ _ => exact absurd hkind ht
    | @token _ blanks chs rest _ _ hblanks _ hvalue hposition others =>
      let e : Token := ⟨.eof, "", ↑(start + blanks.length), 0, 0⟩
      refine ⟨blanks, rest, by simp [hvalue], hposition, ⟨e, rfl, .done hblanks rfl rfl rfl⟩, ?_⟩
      rw [hvalue, String.length_ofList]
      exact others
  | cons a before ih =>
    rw [List.cons_append] at h
    generalize hts : before ++ t :: behind = ts at h
    cases h with
    | done _ _ _ _ => simp at hts
    | @token _ blanks chs rest _ _ hblanks hlexeme hvalue hposition others =>
      subst hts
      obtain ⟨left, right, rfl, hplace, ⟨e, he, hleft⟩, hright⟩ := ih others
      refine ⟨blanks ++ (chs ++ left), right, by simp, ?_, ⟨e, he, ?_⟩, ?_⟩
      · rw [hplace]
        simp only [List.length_append]
        omega
      · exact .token hblanks hlexeme.of_append hvalue hposition hleft
      · have hlength : start + (blanks ++ (chs ++ left)).length =
          start + blanks.length + chs.length + left.length := by simp; omega
        rwa [hlength]

end Scans

end TagFilter
