import TagFilter.Outline.Picture
import TagFilter.Proofs.Outline.Shape

/-!
# Where a branch stands

An outline has the shape of its filter: where there is a node in the filter, there is one branch in
the outline, with the name of that node, and there are no others. Nodes and branches are told by
their addresses. An address says which way to go down from the root, as the numbers of the operands
or of the branches, counted from zero in their order; so it can be read off what belongs under a
node, and which operand comes first. How the nodes are called is left open up to the end.

* `Filter.at?`, `Branch.at?` — the node or the branch at an address;
* `Branch.Labelled.eq_mirror` — a tree is told by the labels at its addresses;
* `Outline.caption` — the name of a node, word by word;
* `Outline.eq_ofFilter_iff` — the outline is the one tree with the right label at every address;
* `Branch.relabel`, `Outline.relabel_ofFilter` — other labels in the same places. So a picture is
  what a terminal makes of the outline with the marks in its labels.
-/

namespace TagFilter

/-- The node at an address: the numbers of the operands on the way down to it. -/
def Filter.at? (f : Filter) : (address : List Nat) → Option Filter
  | [] => some f
  | i :: address => f.children[i]?.bind fun child => child.at? address

namespace Branch

/-- The label of the topmost branch. -/
def label : Branch → String
  | node label _ => label

/-- The branches right below the topmost one. -/
def branches : Branch → List Branch
  | node _ branches => branches

/-- The branch at an address: the numbers of the branches on the way down to it. -/
def at? (b : Branch) : (address : List Nat) → Option Branch
  | [] => some b
  | i :: address => b.branches[i]?.bind fun below => below.at? address

variable {naming : Filter → String}

theorem label_mirror (f : Filter) : (mirror naming f).label = naming f := by
  rw [mirror_eq, label]

theorem branches_mirror (f : Filter) :
    (mirror naming f).branches = f.children.map (mirror naming) := by
  rw [mirror_eq, branches]

/-- Where the filter has a node, its tree has the tree of that node. -/
theorem at?_mirror (f : Filter) (address : List Nat) :
    (mirror naming f).at? address = (f.at? address).map (mirror naming) := by
  induction address generalizing f with
  | nil => rfl
  | cons i address ih =>
    rw [at?, Filter.at?, branches_mirror, List.getElem?_map]
    cases f.children[i]? with
    | none => rfl
    | some child => exact ih child

/-- The label at every address is that of the node at the same address. -/
def Labelled (t : Branch) (naming : Filter → String) (f : Filter) : Prop :=
  ∀ address, (t.at? address).map label = (f.at? address).map naming

theorem labelled_mirror (f : Filter) : (mirror naming f).Labelled naming f := by
  intro address
  rw [at?_mirror, Option.map_map]
  exact congrArg (Option.map · (f.at? address)) (funext label_mirror)

variable {t : Branch} {f child : Filter} {i : Nat}

/-- Where the filter has an operand, a labelled tree has a branch, and that one is labelled too. -/
theorem Labelled.exists_branch (h : t.Labelled naming f) (hchild : f.children[i]? = some child) :
    ∃ below, t.branches[i]? = some below ∧ below.Labelled naming child := by
  have hbelow (address : List Nat) := h (i :: address)
  simp only [at?, Filter.at?, hchild] at hbelow
  cases hbranch : t.branches[i]? with
  | none =>
    -- then there would be no label for the operand
    have hnothing := hbelow []
    simp [hbranch, Filter.at?] at hnothing
  | some below =>
    refine ⟨below, rfl, fun address => ?_⟩
    have hlabel := hbelow address
    rwa [hbranch] at hlabel

/-- Where it has none, there is no branch. -/
theorem Labelled.branch_eq_none (h : t.Labelled naming f) (hchild : f.children[i]? = none) :
    t.branches[i]? = none := by
  have hnothing := h [i]
  simpa [at?, Filter.at?, hchild, Option.bind_eq_none_iff] using hnothing

/-- **A tree is told by the labels at its addresses**, by induction on the filter that they come
from. -/
theorem Labelled.eq_mirror (h : t.Labelled naming f) : t = mirror naming f := by
  induction f using Filter.byChildren generalizing t with
  | step f ih =>
    -- the empty address is that of the root, and each other one begins with an operand
    have hlabel : t.label = naming f := by simpa [at?, Filter.at?] using h []
    have hbranches : t.branches = f.children.map (mirror naming) := by
      refine List.ext_getElem? fun i => ?_
      rw [List.getElem?_map]
      cases hchild : f.children[i]? with
      | none => exact h.branch_eq_none hchild
      | some child =>
        obtain ⟨below, hbranch, hbelow⟩ := h.exists_branch hchild
        rw [hbranch, ih child (List.mem_of_getElem? hchild) hbelow]
        rfl
    obtain ⟨name, branches⟩ := t
    rw [mirror_eq, ← hlabel, ← hbranches, label, Branch.branches]

end Branch

namespace Outline

/-- The name of a node, if patterns are written with `write`. -/
def caption (write : String → String) : Filter → String
  | .identifier pattern => write pattern
  | .and _ _ => "AND"
  | .or _ _ => "OR"
  | .not _ => "NOT"

theorem label_eq_caption (write : String → String) : label write = caption write := by
  funext f
  cases f <;> rfl

variable {naming : Filter → String} {t : Branch} {f : Filter}

/-- The outline is the one tree that is labelled like its filter. -/
theorem eq_ofFilter_iff_labelled : t = ofFilter naming f ↔ t.Labelled naming f := by
  rw [ofFilter_eq_mirror]
  refine ⟨?_, Branch.Labelled.eq_mirror⟩
  rintro rfl
  exact Branch.labelled_mirror f

/-- The table has one entry for every node. -/
theorem size_entries (naming : Filter → String) (f : Filter) :
    (entries naming f).size = f.size := by
  rw [entries_eq, List.size_toArray, length_block]

/-- **An outline has one branch for every node**, and it is the only tree that has: at the address
of a node stands a branch with the label of this node, and at any other address stands nothing. So a
branch stands under that of its own parent, and the branch of a left operand in front of that of the
right one. No further branch is made on the way. This is so whatever the labels are. If they are the
names of the nodes, these are `AND`, `OR` or `NOT` or the pattern; and in the markup of a terminal
they are the same between marks, with the pattern escaped. -/
theorem eq_ofFilter_iff (f : Filter) :
    (∀ (naming : Filter → String) (t : Branch), t = ofFilter naming f ↔
      ∀ address, (t.at? address).map Branch.label = (f.at? address).map naming) ∧
    (∀ naming : Filter → String, (entries naming f).size = f.size) ∧
    (∀ (write : String → String) (t : Branch), t = ofFilter (label write) f ↔
      ∀ address, (t.at? address).map Branch.label = (f.at? address).map (caption write)) ∧
    ∀ (escape : String → String) (t : Branch), t = ofFilter (markup escape) f ↔
      ∀ address, (t.at? address).map Branch.label =
        (f.at? address).map fun node => mark node (caption escape node) := by
  have hmarkup (escape : String → String) :
      markup escape = fun node => mark node (caption escape node) := by
    funext node
    rw [markup, label_eq_caption]
  -- the last two parts are the first one, for the labels of a picture and for those with marks
  refine ⟨fun naming t => eq_ofFilter_iff_labelled, fun naming => size_entries naming f,
    fun write t => ?_, fun escape t => ?_⟩
  · rw [label_eq_caption]
    exact eq_ofFilter_iff_labelled
  · rw [hmarkup]
    exact eq_ofFilter_iff_labelled

end Outline

/-! ### Other labels in the same places -/

/-- The tree with every label written in another way. -/
def Branch.relabel (write : String → String) : Branch → Branch
  | .node label branches => .node (write label) (branches.map (relabel write))

namespace Branch

variable {write : String → String}

theorem label_relabel (t : Branch) : (t.relabel write).label = write t.label := by
  cases t
  rw [relabel, label, label]

theorem branches_relabel (t : Branch) :
    (t.relabel write).branches = t.branches.map (relabel write) := by
  cases t
  rw [relabel, branches, branches]

/-- A branch stays where it is when the labels are written in another way. -/
theorem at?_relabel (t : Branch) (address : List Nat) :
    (t.relabel write).at? address = (t.at? address).map (relabel write) := by
  induction address generalizing t with
  | nil => rfl
  | cons i address ih =>
    rw [at?, at?, branches_relabel, List.getElem?_map]
    cases t.branches[i]? with
    | none => rfl
    | some below => exact ih below

end Branch

namespace Outline

variable {naming : Filter → String} {write : String → String}

/-- **Outlines with other labels** are the same but for the labels. -/
theorem relabel_ofFilter (f : Filter) :
    (ofFilter naming f).relabel write = ofFilter (write ∘ naming) f := by
  -- branches stay at their addresses, so one label is compared at a time
  rw [eq_ofFilter_iff_labelled]
  intro address
  have hlabel : Branch.label ∘ Branch.relabel write = write ∘ Branch.label :=
    funext Branch.label_relabel
  calc
    (((ofFilter naming f).relabel write).at? address).map Branch.label
      = (((ofFilter naming f).at? address).map Branch.label).map write := by
        rw [Branch.at?_relabel, Option.map_map, hlabel, Option.map_map]
    _ = ((f.at? address).map naming).map write := by
        rw [eq_ofFilter_iff_labelled.mp rfl address]
    _ = (f.at? address).map (write ∘ naming) := Option.map_map _ _ _

/-- A terminal that shows marked labels as the names of their nodes draws the picture of the
filter. -/
theorem lines_ofFilter_markup {escape shown : String → String}
    (hshown : ∀ f, shown (markup escape f) = label id f) (f : Filter) :
    ((ofFilter (markup escape) f).relabel shown).lines = f.picture := by
  rw [relabel_ofFilter, Filter.picture]
  exact congrArg (fun naming => (ofFilter naming f).lines) (funext hshown)

/-- `first or not first`: a pattern has a branch wherever it stands, the left one on top. -/
example :
    ofFilter (markup id) (.or (.identifier "first") (.not (.identifier "first"))) =
      .node "[bold]OR[/bold]" [.node "[green]first[/green]" [],
        .node "[bold]NOT[/bold]" [.node "[green]first[/green]" []]] := by
  rw [ofFilter_eq_mirror]
  rfl

end Outline

end TagFilter
