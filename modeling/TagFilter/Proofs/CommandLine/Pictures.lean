import TagFilter.Proofs.CommandLine.Agreement
import TagFilter.Proofs.Filter.Spelling
import TagFilter.Proofs.Outline.Decoding

/-!
# What is printed tells filters apart

Two texts that spell a filter are shown in the same lines exactly if they spell the same filter
(`CommandLine.shown_eq_iff`). The patterns that can be read from a text are legible: blanks part
words, so a label has no space and no line break in it, and `AND`, `OR` and `NOT` are operators in
every casing. All other characters may stand in a pattern, brackets and the strokes of the guides
among them.

* `IsPattern.legible`, `Filter.allLegible_of_parse` — the patterns of a text are legible;
* `CommandLine.unlines_inj` — lines without line breaks are told by the printed text.
-/

namespace TagFilter

/-- A word that may stand as a pattern is legible. -/
theorem IsPattern.legible {lower : LowerCasing} {pattern : String} (h : IsPattern lower pattern) :
    Legible pattern where
  one_word := fun hspace => h.letters ' ' hspace (by decide)
  one_line := fun hbreak => h.letters '\n' hbreak (by decide)
  no_operator := by
    -- the names of the operators are read as operators
    have hkind := (isPattern_iff.mp h).2.2
    have hnames : ∀ name ∈ ["AND", "OR", "NOT"], kindOfWord name.toList ≠ .identifier := by decide
    exact fun hname => hnames pattern hname hkind

theorem Filter.allLegible_of_parse {text : String} {f : Filter} (h : parse text = .ok f) :
    f.AllLegible :=
  fun pattern hpattern => (isPattern_of_parse h .latin pattern hpattern).legible

namespace CommandLine

variable {lines others : List String} {text text' : String} {f g : Filter}

/-! ### Printed lines -/

theorem toList_unlines_cons (line : String) (lines : List String) :
    (unlines (line :: lines)).toList = line.toList ++ '\n' :: (unlines lines).toList := by
  rw [← List.singleton_append, unlines_append, unlines_singleton]
  simp

/-- **Lines are told by the printed text**, if there are no line breaks in them. -/
theorem unlines_inj (hlines : ∀ line ∈ lines, '\n' ∉ line.toList)
    (hothers : ∀ line ∈ others, '\n' ∉ line.toList) :
    unlines lines = unlines others ↔ lines = others := by
  refine ⟨fun h => ?_, congrArg unlines⟩
  induction lines generalizing others with
  | nil =>
    by_contra hne
    exact unlines_ne_empty (Ne.symm hne) h.symm
  | cons line lines ih =>
    obtain ⟨line', others, rfl⟩ : ∃ line' rest, others = line' :: rest := by
      refine List.exists_cons_of_ne_nil fun hnil => ?_
      exact unlines_ne_empty (List.cons_ne_nil line lines) (by rw [h, hnil]; rfl)
    rw [List.forall_mem_cons] at hlines hothers
    have hchars := congrArg String.toList h
    rw [toList_unlines_cons, toList_unlines_cons] at hchars
    -- the first line ends at the first line break
    have hlength : line.toList.length = line'.toList.length := by
      have hbreak := congrArg (List.idxOf '\n') hchars
      rwa [List.idxOf_append_of_notMem hlines.1, List.idxOf_append_of_notMem hothers.1,
        List.idxOf_cons_self] at hbreak
    obtain ⟨hfirst, hrest⟩ := List.append_inj hchars hlength
    obtain rfl := String.toList_inj.mp hfirst
    rw [ih hlines.2 hothers.2 (String.toList_inj.mp (List.cons.inj hrest).2)]

/-! ### Shown filters -/

/-- **Texts are shown in the same lines exactly if they spell the same filter.** So nothing is lost
in what is printed for a text: the order of the operands, the way they are nested and the patterns
can all be read off, whatever strokes and brackets the patterns are made of. -/
theorem shown_eq_iff (htext : Filter.parse text = .ok f) (htext' : Filter.parse text' = .ok g) :
    (∀ verbose, Always verbose (.parse text false) (.done 0 (unlines f.picture) "")) ∧
    (∀ verbose, Always verbose (.parse text' false) (.done 0 (unlines g.picture) "")) ∧
    (f.picture = g.picture ↔ f = g) ∧ (unlines f.picture = unlines g.picture ↔ f = g) := by
  have hf := Filter.allLegible_of_parse htext
  have hg := Filter.allLegible_of_parse htext'
  refine ⟨fun verbose => ?_, fun verbose => ?_, Filter.picture_inj hf hg, ?_⟩
  · rw [← perform_picture htext]
    exact always_perform verbose _
  · rw [← perform_picture htext']
    exact always_perform verbose _
  · rw [unlines_inj hf.one_line hg.one_line, Filter.picture_inj hf hg]

/-- A chain leans to the left. Made to lean to the right, it is printed differently, even if one of
its patterns looks like a guide and another one has brackets. -/
theorem shown_eq_iff_leaning :
    (run .initial ["parse", "--", "├── or b or [c]"]).1 ≠
      (run .initial ["parse", "--", "├── or (b or [c])"]).1 := by
  let left : Filter := .or (.or (.identifier "├──") (.identifier "b")) (.identifier "[c]")
  let right : Filter := .or (.identifier "├──") (.or (.identifier "b") (.identifier "[c]"))
  have hleft : Filter.parse "├── or b or [c]" = .ok left := by cbv
  have hright : Filter.parse "├── or (b or [c])" = .ok right := by cbv
  obtain ⟨hshown, hshown', -, hiff⟩ := shown_eq_iff hleft hright
  have hrun : run .initial ["parse", "--", "├── or b or [c]"] =
      (.done 0 (unlines left.picture) "", ⟨false⟩) :=
    hshown false _ _ (asks_parse "├── or b or [c]" false false)
  have hrun' : run .initial ["parse", "--", "├── or (b or [c])"] =
      (.done 0 (unlines right.picture) "", ⟨false⟩) :=
    hshown' false _ _ (asks_parse "├── or (b or [c])" false false)
  rw [hrun, hrun']
  intro h
  exact absurd (hiff.mp (Report.done.inj h).2.1) (by decide)

end CommandLine

end TagFilter
