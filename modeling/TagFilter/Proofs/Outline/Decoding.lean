import Mathlib
import TagFilter.Outline.Picture
import TagFilter.Proofs.Filter.Leaves
import TagFilter.Proofs.Outline.Shape

/-!
# Pictures can be read back

No two filters have the same picture, as long as a label can be told from the guides in front of it
and a pattern from the name of an operator (`Filter.picture_inj`). Only the labels have to be read
off for this: a guide ends with a space and a label has none, so the label is what stands behind the
last space of a line. From top to bottom the labels are those of the nodes in preorder, and each one
says how many operands follow it.

* `Legible` — a pattern that can be told from everything else;
* `Filter.labels` — the labels from top to bottom;
* `Filter.labels_append_inj` — a filter is told by its labels, whatever follows them;
* `lastWord`, `Shows` — how a label is read off a line;
* `Branch.shows_linesFrom` — the lines of a picture show the labels.
-/

namespace TagFilter

/-- A label whose first letter and whose end can be found in a picture. -/
structure IsWord (label : String) : Prop where
  one_word : ' ' ∉ label.toList
  one_line : '\n' ∉ label.toList

/-- A pattern that can be told from everything else in a picture. -/
structure Legible (pattern : String) : Prop extends IsWord pattern where
  no_operator : pattern ∉ ["AND", "OR", "NOT"]

namespace Filter

/-- Every pattern of the filter can be told from everything else in a picture. -/
def AllLegible (f : Filter) : Prop := ∀ pattern ∈ f.leaves, Legible pattern

/-- The labels of the nodes, from top to bottom in the picture. -/
def labels : Filter → List String
  | identifier pattern => [Outline.label id (identifier pattern)]
  | and left right => Outline.label id (and left right) :: (left.labels ++ right.labels)
  | or left right => Outline.label id (or left right) :: (left.labels ++ right.labels)
  | not operand => Outline.label id (not operand) :: operand.labels

variable {f g : Filter} {fs gs : List Filter} {rest others : List String}

theorem labels_eq (f : Filter) : f.labels = Outline.label id f :: f.children.flatMap labels := by
  cases f <;> simp [labels, children]

/-- The patterns of an operand are patterns of the whole. -/
theorem leaves_subset_of_child {child : Filter} (h : child ∈ f.children) :
    child.leaves ⊆ f.leaves := by
  cases f with
  | identifier pattern => simp [children] at h
  | not operand =>
    obtain rfl := List.mem_singleton.mp h
    exact List.Subset.refl _
  | and left right | or left right =>
    have h : child = left ∨ child = right := by simpa [children] using h
    rcases h with rfl | rfl
    · exact List.subset_append_left _ _
    · exact List.subset_append_right _ _

theorem AllLegible.child {child : Filter} (h : f.AllLegible) (hchild : child ∈ f.children) :
    child.AllLegible :=
  fun pattern hpattern => h pattern (leaves_subset_of_child hchild hpattern)

/-- A label is a pattern of the filter or the name of an operator. -/
theorem label_mem (f : Filter) :
    Outline.label id f ∈ f.leaves ∨ Outline.label id f ∈ ["AND", "OR", "NOT"] := by
  cases f with
  | identifier pattern => exact .inl (List.mem_singleton_self pattern)
  | and left right | or left right | not operand =>
    exact .inr (by simp [Outline.label, form, Form.title])

theorem AllLegible.isWord_label (h : f.AllLegible) : IsWord (Outline.label id f) := by
  have hnames : ∀ name ∈ ["AND", "OR", "NOT"], ' ' ∉ name.toList ∧ '\n' ∉ name.toList := by decide
  rcases f.label_mem with hleaf | hname
  · exact (h _ hleaf).toIsWord
  · exact ⟨(hnames _ hname).1, (hnames _ hname).2⟩

/-! ### Filters are told by their labels -/

/-- A node is told by its label and its operands, since no pattern is the name of an operator. -/
theorem eq_of_label_eq (hf : f.AllLegible) (hg : g.AllLegible)
    (h : Outline.label id f = Outline.label id g) :
    f.children.length = g.children.length ∧ (f.children = g.children → f = g) := by
  have hpattern {p name : String} (hp : (identifier p).AllLegible) (hname : p = name) :
      name ∉ ["AND", "OR", "NOT"] :=
    hname ▸ (hp p (List.mem_singleton_self p)).no_operator
  cases f with
  | identifier p =>
    cases g with
    | identifier q => exact ⟨rfl, fun _ => congrArg identifier h⟩
    | and left right | or left right | not operand =>
      exact absurd (by simp [Outline.label, form, Form.title]) (hpattern hf h)
  | and l r | or l r | not l =>
    cases g with
    | identifier q =>
      exact absurd (by simp [Outline.label, form, Form.title]) (hpattern hg h.symm)
    | and left right | or left right | not operand =>
      -- the operators have different names, and the rest is the same
      revert h
      simp [Outline.label, form, Form.title, children]

/-- Filters that stand one after the other are told by their labels, if each of them is. -/
theorem flatMap_labels_append_inj
    (h : ∀ f ∈ fs, ∀ {g : Filter} {rest others : List String}, f.AllLegible → g.AllLegible →
      f.labels ++ rest = g.labels ++ others → f = g ∧ rest = others)
    (hfs : ∀ f ∈ fs, f.AllLegible) (hgs : ∀ g ∈ gs, g.AllLegible) (hlength : fs.length = gs.length)
    (hlabels : fs.flatMap labels ++ rest = gs.flatMap labels ++ others) :
    fs = gs ∧ rest = others := by
  induction fs generalizing gs with
  | nil =>
    obtain rfl := List.eq_nil_of_length_eq_zero hlength.symm
    exact ⟨rfl, hlabels⟩
  | cons f fs ih =>
    obtain ⟨g, gs, rfl⟩ := List.exists_cons_of_length_eq_add_one hlength.symm
    rw [List.forall_mem_cons] at h hfs hgs
    simp only [List.flatMap_cons, List.append_assoc] at hlabels
    obtain ⟨rfl, hothers⟩ := h.1 hfs.1 hgs.1 hlabels
    obtain ⟨rfl, hrest⟩ := ih h.2 hfs.2 hgs.2 (by simpa using hlength) hothers
    exact ⟨rfl, hrest⟩

/-- **A filter is told by its labels**, whatever follows them. -/
theorem labels_append_inj (hf : f.AllLegible) (hg : g.AllLegible)
    (h : f.labels ++ rest = g.labels ++ others) : f = g ∧ rest = others := by
  induction f using Filter.byChildren generalizing g rest others with
  | step f ih =>
    rw [labels_eq, labels_eq, List.cons_append, List.cons_append, List.cons.injEq] at h
    -- the label of the root tells how many operands are labelled behind it
    obtain ⟨hlength, heq⟩ := eq_of_label_eq hf hg h.1
    obtain ⟨hchildren, hrest⟩ := flatMap_labels_append_inj (fun child hchild => ih child hchild)
      (fun child hchild => hf.child hchild) (fun child hchild => hg.child hchild) hlength h.2
    exact ⟨heq hchildren, hrest⟩

end Filter

/-! ### The labels in a picture -/

/-- What stands behind the last space of a line. -/
def lastWord (line : String) : List Char := line.toList.rtakeWhile (· ≠ ' ')

/-- What stands in front of a label: nothing, or guides, of which the last one ends with a space. -/
structure IsGuide (front : String) : Prop where
  one_line : '\n' ∉ front.toList
  no_word : lastWord front = []

/-- A line of a picture shows a label: the label is a word, and guides stand in front of it. -/
def Shows (line label : String) : Prop :=
  ∃ front, IsGuide front ∧ IsWord label ∧ line = front ++ label

variable {f g : Filter} {fs : List Filter} {front margin line label : String}

/-- A label is read off. -/
theorem Shows.lastWord_eq (h : Shows line label) : lastWord line = label.toList := by
  obtain ⟨front, hfront, hlabel, rfl⟩ := h
  have hword : ∀ c ∈ label.toList.reverse, decide (c ≠ ' ') = true := by
    intro c hc
    rw [decide_eq_true_eq]
    rintro rfl
    exact hlabel.one_word (List.mem_reverse.mp hc)
  -- from the right, the label comes first, and then a space or the start of the line
  have hnothing := hfront.no_word
  rw [lastWord, List.rtakeWhile, List.reverse_eq_nil_iff] at hnothing
  rw [lastWord, List.rtakeWhile, String.toList_append, List.reverse_append,
    List.takeWhile_append_of_pos hword, hnothing, List.append_nil, List.reverse_reverse]

theorem shows_rightUnique : Relator.RightUnique Shows := by
  intro line label label' h h'
  rw [← String.toList_inj, ← h.lastWord_eq, h'.lastWord_eq]

theorem Shows.one_line (h : Shows line label) : '\n' ∉ line.toList := by
  obtain ⟨front, hfront, hlabel, rfl⟩ := h
  rw [String.toList_append, List.mem_append, not_or]
  exact ⟨hfront.one_line, hlabel.one_line⟩

theorem IsGuide.append {guide : String} {strokes : List Char} (h : IsGuide margin)
    (hguide : guide.toList = strokes ++ [' ']) (hstrokes : '\n' ∉ strokes) :
    IsGuide (margin ++ guide) where
  one_line := by
    rw [String.toList_append, hguide]
    simp [h.one_line, hstrokes]
  no_word := by
    rw [lastWord, String.toList_append, hguide, ← List.append_assoc]
    exact List.rtakeWhile_concat_neg _ _ _ (by decide)

theorem IsGuide.elbow (h : IsGuide margin) (isLast : Bool) :
    IsGuide (margin ++ Branch.elbow isLast) := by
  cases isLast
  · exact @IsGuide.append _ _ ['├', '─', '─'] h (by decide) (by decide)
  · exact @IsGuide.append _ _ ['└', '─', '─'] h (by decide) (by decide)

theorem IsGuide.rail (h : IsGuide margin) (isLast : Bool) :
    IsGuide (margin ++ Branch.rail isLast) := by
  cases isLast
  · exact @IsGuide.append _ _ ['│', ' ', ' '] h (by decide) (by decide)
  · exact @IsGuide.append _ _ [' ', ' ', ' '] h (by decide) (by decide)

namespace Branch

/-- The lines of filters that stand one below the other, if those of each of them are known. -/
theorem shows_linesBelow
    (h : ∀ f ∈ fs, ∀ {front margin : String}, f.AllLegible → IsGuide front → IsGuide margin →
      List.Forall₂ Shows ((mirror (Outline.label id) f).linesFrom front margin) f.labels)
    (hfs : ∀ f ∈ fs, f.AllLegible) (hmargin : IsGuide margin) :
    List.Forall₂ Shows (linesBelow margin (fs.map (mirror (Outline.label id))))
      (fs.flatMap Filter.labels) := by
  induction fs with
  | nil => exact .nil
  | cons f fs ih =>
    rw [List.forall_mem_cons] at h hfs
    rw [List.map_cons, linesBelow, List.flatMap_cons]
    exact List.rel_append (h.1 hfs.1 (hmargin.elbow _) (hmargin.rail _)) (ih h.2 hfs.2)

/-- **The lines of a picture show the labels**, from top to bottom. -/
theorem shows_linesFrom (hf : f.AllLegible) (hfront : IsGuide front) (hmargin : IsGuide margin) :
    List.Forall₂ Shows ((mirror (Outline.label id) f).linesFrom front margin) f.labels := by
  induction f using Filter.byChildren generalizing front margin with
  | step f ih =>
    rw [mirror_eq, linesFrom, Filter.labels_eq]
    exact .cons ⟨front, hfront, hf.isWord_label, rfl⟩
      (shows_linesBelow (fun child hchild => ih child hchild)
        (fun child hchild => hf.child hchild) hmargin)

end Branch

namespace Filter

theorem AllLegible.shows_picture (hf : f.AllLegible) : List.Forall₂ Shows f.picture f.labels := by
  have hnothing : IsGuide "" := ⟨by decide, by decide⟩
  rw [picture, Branch.lines, Outline.ofFilter_eq_mirror]
  exact Branch.shows_linesFrom hf hnothing hnothing

/-- No line of a picture has a line break in it. -/
theorem AllLegible.one_line (hf : f.AllLegible) : ∀ line ∈ f.picture, '\n' ∉ line.toList := by
  have hshows : List.Forall₂ (fun line label => '\n' ∉ line.toList ∧ Shows line label)
      f.picture f.labels := hf.shows_picture.imp fun _ _ h => ⟨h.one_line, h⟩
  exact ((List.forall₂_and_left _ _).mp hshows).1

/-- **Pictures tell filters apart.** -/
theorem picture_inj (hf : f.AllLegible) (hg : g.AllLegible) : f.picture = g.picture ↔ f = g := by
  refine ⟨fun h => ?_, congrArg picture⟩
  have hlabels : f.labels = g.labels :=
    List.right_unique_forall₂' shows_rightUnique hf.shows_picture (h ▸ hg.shows_picture)
  exact (@labels_append_inj f g [] [] hf hg (by rw [hlabels])).1

end Filter

end TagFilter
