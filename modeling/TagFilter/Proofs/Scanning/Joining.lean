import TagFilter.Proofs.Scanning.Cutting

/-!
# Joining two texts

If the second of two texts begins with a blank or a parenthesis, the tokens of both together are the
tokens of the first without its end mark, followed by the tokens of the second (`Scans.join`). No
word can run over the seam, and the blanks at the end of the first text are blanks in front of the
first token of the second.

`Scans.moved` says that a text has the same tokens wherever it stands, up to their places. It is
needed wherever a text is put into another one.
-/

namespace TagFilter

/-- A lexeme stays one in front of more text, if the added text could not continue a word. -/
theorem Lexeme.append {kind : Token.Kind} {chs left right : List Char} (h : Lexeme kind chs left)
    (hright : ∀ c ∈ right.head?, isBoundary c = true) : Lexeme kind chs (left ++ right) := by
  cases h with
  | leftParen => exact .leftParen _
  | rightParen => exact .rightParen _
  | word hne hchs hleft =>
    refine .word hne hchs ?_
    cases left with
    | nil => exact hright
    | cons c left => exact hleft

namespace Scans

variable {start : Nat} {left right : List Char} {ts : List Token}

/-- Blanks in front of a text only move its tokens. -/
theorem blanks_append {blanks : List Char} (hblanks : ∀ c ∈ blanks, isBlank c = true)
    (h : Scans (start + blanks.length) right ts) : Scans start (blanks ++ right) ts := by
  have hall : ∀ {more : List Char}, (∀ c ∈ more, isBlank c = true) →
      ∀ c ∈ blanks ++ more, isBlank c = true := by
    intro more hmore c hc
    rcases List.mem_append.mp hc with hc | hc
    · exact hblanks c hc
    · exact hmore c hc
  cases h with
  | done hmore hkind hvalue hposition =>
    refine .done (hall hmore) hkind hvalue ?_
    rw [hposition, List.length_append, Nat.add_assoc]
  | @token _ more chs rest t ts hmore hlexeme hvalue hposition others =>
    rw [← List.append_assoc]
    refine .token (hall hmore) hlexeme hvalue ?_ ?_
    · rw [hposition, List.length_append, Nat.add_assoc]
    · rwa [List.length_append, ← Nat.add_assoc start]

/-- **Texts are joined token by token**, if no word can run over the seam. -/
theorem join {before : List Token} {e : Token} (hleft : Scans start left (before ++ [e]))
    (hright : Scans (start + left.length) right ts)
    (hseam : ∀ c ∈ right.head?, isBoundary c = true) :
    Scans start (left ++ right) (before ++ ts) := by
  induction before generalizing start left with
  | nil =>
    obtain ⟨hblanks, -⟩ := scans_singleton_iff.mp hleft
    exact blanks_append hblanks hright
  | cons t before ih =>
    obtain ⟨blanks, rest, rfl, hblanks, hlexeme, hposition, others⟩ :=
      (scans_cons_iff (by simp)).mp hleft
    have hne : before ++ ts ≠ [] := by
      intro hnil
      rw [(List.append_eq_nil_iff.mp hnil).2] at hright
      cases hright
    have hlength : start + (blanks ++ (t.value.toList ++ rest)).length =
        start + blanks.length + t.value.length + rest.length := by
      simp [Nat.add_assoc, String.length_toList]
    rw [hlength] at hright
    exact (scans_cons_iff hne).mpr
      ⟨blanks, rest ++ right, by simp, hblanks, hlexeme.append hseam, hposition, ih others hright⟩

/-- **A text has its tokens everywhere**, with the same gist. -/
theorem moved (h : Scans start left ts) (place : Nat) :
    ∃ us, Scans place left us ∧
      us.map (Token.placedFrom place) = ts.map (Token.placedFrom start) := by
  obtain ⟨us, -, hus⟩ := Cursor.tokens_scans ⟨left, place, 1, 1⟩
  exact ⟨us, hus, hus.unique h⟩

end Scans

end TagFilter
