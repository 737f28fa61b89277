import TagFilter.Sharing.Basic
import TagFilter.Worklist

/-!
# Digests of filters with shared nodes

A digest is a number computed from a filter, node by node: from the form, the pattern and the
digests of the operands from left to right. It is found without recursion on the filter: nodes are
visited on the way down and again when their operands have digests, and a table keeps the digest of
every node by its name.

* `Mixer` — how the digest of a node comes from its parts;
* `Filter.digest` — the digest, by recursion on the tree;
* `Shared.digestLoop` — the loop over a stack of visits;
* `Shared.digest?` — the digest of a filter with shared nodes.
-/

namespace TagFilter

/-- How the digest of a node comes from its form, its pattern and the digests of its operands. -/
abbrev Mixer : Type := Filter.Form → Option String → List UInt64 → UInt64

/-- A mixer that takes every part into account. -/
def standardMixer : Mixer := fun form pattern operands =>
  operands.foldl mixHash (mixHash (hash form.tag) (hash pattern))

/-- The digest of a filter. -/
def Filter.digest (mix : Mixer) : Filter → UInt64
  | identifier pattern => mix .identifier (some pattern) []
  | and left right => mix .and none [left.digest mix, right.digest mix]
  | or left right => mix .or none [left.digest mix, right.digest mix]
  | not operand => mix .not none [operand.digest mix]

namespace Shared

/-- Digests by the names of nodes; the latest entry comes first. -/
abbrev Digests : Type := List (Nat × UInt64)

/-- The digest of a node whose children are in the table. -/
def nodeDigest? (mix : Mixer) (s : Shared) (known : Digests) : Option UInt64 :=
  (s.children.mapM fun child => known.lookup child.name).map (mix s.form s.pattern?)

/-- A bound on the visits that an entry of the stack can still cause. -/
def visits : Shared × Bool → Nat
  | (_, true) => 1
  | (s, false) => 2 * s.size

/-- The children of a node, to be visited for the first time; the last one first. -/
def firstVisits (s : Shared) : List (Shared × Bool) :=
  s.children.reverse.map fun child => (child, false)

theorem worth_firstVisits (s : Shared) :
    Worklist.worth visits (firstVisits s) + 2 = visits (s, false) := by
  cases s <;> simp [firstVisits, children, visits, size] <;> omega

/-- Visits the nodes on the stack, each with whether its children have digests, and fills the table.
It fails if the digest of a child is wanted and not there. -/
def digestLoop (mix : Mixer) (stack : List (Shared × Bool)) (known : Digests) : Option Digests :=
  match stack with
  | [] => some known
  | (s, again) :: others =>
    -- a leaf has nothing to wait for
    if again || s.children.isEmpty then
      match nodeDigest? mix s known with
      | none => none
      | some d => digestLoop mix others ((s.name, d) :: known)
    else digestLoop mix (firstVisits s ++ (s, true) :: others) known
termination_by Worklist.worth visits stack
decreasing_by
  · have : 0 < visits (s, again) := by cases again <;> cases s <;> simp [visits, size]
    simp only [Worklist.worth_cons]
    omega
  · rename_i h
    have := worth_firstVisits s
    have : visits (s, true) = 1 := by simp [visits]
    have hagain : again = false := by cases again <;> simp_all
    simp only [hagain, Worklist.worth_append, Worklist.worth_cons]
    omega

/-- The digest of a filter. -/
def digest? (mix : Mixer) (s : Shared) : Option UInt64 :=
  (digestLoop mix [(s, false)] []).bind (List.lookup s.name)

end Shared

end TagFilter
