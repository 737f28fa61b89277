import TagFilter.Proofs.Grammar.Invariance

/-!
# Pieces of a text

* `slice` — the text between two places;
* `Token.first`, `Token.behind` — the places where a token begins and ends;
* `pieces` — what is left of a text when some of its tokens are cut out;
* `parse_pieces` — cut at the operators of a chain, the pieces spell the filters of its operands.
-/

namespace TagFilter

open Grammar

/-- The text between two places. -/
def slice (text : String) (first behind : Nat) : String :=
  String.ofList ((text.toList.take behind).drop first)

/-- The place where a token begins. -/
def Token.first (t : Token) : Nat := t.position.toNat

/-- The place right behind a token. -/
def Token.behind (t : Token) : Nat := t.first + t.value.length

/-- The pieces of a text from the place `first` on, between the tokens that are cut out. -/
def piecesFrom (text : String) : (first : Nat) → List Token → List String
  | first, [] => [slice text first text.length]
  | first, t :: ts => slice text first t.first :: piecesFrom text t.behind ts

/-- The pieces of a text between the tokens that are cut out. -/
def pieces (text : String) (cuts : List Token) : List String := piecesFrom text 0 cuts

theorem slice_eq {text : String} {before chs after : List Char}
    (h : text.toList = before ++ (chs ++ after)) :
    slice text before.length (before.length + chs.length) = String.ofList chs := by
  have htake : (before ++ (chs ++ after)).take (before.length + chs.length) = before ++ chs := by
    rw [← List.append_assoc, ← List.length_append, List.take_left]
  rw [slice, h, htake, List.drop_left]

/-- The text from a place to the end. -/
theorem slice_to_end {text : String} {before chs : List Char} (h : text.toList = before ++ chs) :
    slice text before.length text.length = String.ofList chs := by
  have hlength : text.length = before.length + chs.length := by
    rw [← String.length_toList, h, List.length_append]
  rw [hlength]
  exact @slice_eq text before chs [] (by simpa using h)

/-- The text in front of a token, from a place on, and what follows the token. -/
theorem Scans.cut_slice {text : String} {before chars : List Char} {ts us : List Token} {t : Token}
    (htext : text.toList = before ++ chars) (h : Scans before.length chars (ts ++ t :: us))
    (ht : t.kind ≠ .eof) :
    (∃ e, e.kind = .eof ∧ Scans before.length (slice text before.length t.first).toList (ts ++ [e])) ∧
      ∃ front right, text.toList = front ++ right ∧ t.behind = front.length ∧
        Scans front.length right us := by
  obtain ⟨left, right, rfl, hposition, ⟨e, he, hleft⟩, hright⟩ := h.cut ht
  have hfirst : t.first = before.length + left.length := by
    rw [Token.first, hposition, Int.toNat_natCast]
  refine ⟨⟨e, he, ?_⟩, before ++ (left ++ t.value.toList), right, by simp [htext], ?_, ?_⟩
  · rw [hfirst, slice_eq htext, String.toList_ofList]
    exact hleft
  · rw [Token.behind, hfirst]
    simp [Nat.add_assoc, String.length_toList]
  · simpa [Nat.add_assoc, String.length_toList] using hright

/-- **The pieces of a chain spell its operands.** Cut at the operators of a chain, a text falls into
pieces that spell the filters of the operands, from left to right. -/
theorem parse_pieces {text : String} {before chars : List Char} {first : List Token} {f : Filter}
    {links : List Link} {e : Token} (htext : text.toList = before ++ chars)
    (hscans : Scans before.length chars (first ++ (spelling links ++ [e]))) (he : e.kind = .eof)
    (hfirst : Derives .disjunction first f) (operators : ∀ l ∈ links, l.operator.kind ≠ .eof)
    (operands : ∀ l ∈ links, Derives .disjunction l.tokens l.filter) :
    (piecesFrom text before.length (links.map Link.operator)).map Filter.parse =
      (f :: links.map Link.filter).map .ok := by
  induction links generalizing before chars first f with
  | nil =>
    -- the last piece reaches up to the end of the text
    rw [spelling_nil, List.nil_append] at hscans
    have hpiece : Filter.parse (slice text before.length text.length) = .ok f := by
      rw [slice_to_end htext]
      exact Filter.parse_of_scans (by rwa [String.toList_ofList]) he hfirst
    simp [piecesFrom, hpiece]
  | cons l links ih =>
    rw [List.forall_mem_cons] at operators operands
    rw [spelling_cons, List.cons_append, List.append_assoc] at hscans
    obtain ⟨⟨e', he', hleft⟩, front, right, htext', hbehind, hright⟩ :=
      hscans.cut_slice htext operators.1
    have hpiece := Filter.parse_of_scans hleft he' hfirst
    -- behind the operator the same holds of the shorter chain
    have hothers := ih htext' hright operands.1 operators.2 operands.2
    rw [List.map_cons, piecesFrom, List.map_cons, hpiece, hbehind, hothers]
    rfl

end TagFilter
