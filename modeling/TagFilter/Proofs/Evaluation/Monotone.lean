import Mathlib
import TagFilter.Proofs.Evaluation.Simulation

/-!
# More tags, more or fewer items

A tag that is added to an item can make a filter select it or deselect it, and where the pattern of
that tag stands tells which. Below an even number of `NOT`s it can only help to select the item,
below an odd number it can only hinder (`Filter.evaluate_monotone`).

* `Filter.notsAbove` — the numbers of `NOT`s above the places where a pattern stands;
* `Filter.holds_of_parity` — the lemma behind both directions. It is about any two lists of tags,
  neither of which contains the other: tags may be gained at even places and lost at odd ones. So it
  is its own dual, and below a `NOT` it is used with the two lists exchanged.
-/

namespace TagFilter.Filter

/-- For every place where the pattern stands, from left to right: the number of `NOT`s above it. -/
def notsAbove (p : String) : Filter → List Nat
  | identifier pattern => if pattern = p then [0] else []
  | and left right => left.notsAbove p ++ right.notsAbove p
  | or left right => left.notsAbove p ++ right.notsAbove p
  | not operand => (operand.notsAbove p).map (· + 1)

/-- The number of `NOT`s in a filter. -/
def negations : Filter → Nat
  | identifier _ => 0
  | and left right => left.negations + right.negations
  | or left right => left.negations + right.negations
  | not operand => operand.negations + 1

variable {f : Filter}

/-- Above no place are there more `NOT`s than there are in the filter. -/
theorem le_negations_of_mem {p : String} {n : Nat} (h : n ∈ f.notsAbove p) : n ≤ f.negations := by
  induction f generalizing n with
  | identifier pattern =>
    rw [notsAbove] at h
    split at h
    · exact Nat.le_of_eq (List.mem_singleton.mp h)
    · simp at h
  | and left right ihl ihr | or left right ihl ihr =>
    rw [negations]
    rcases List.mem_append.mp h with h | h
    · exact Nat.le_add_right_of_le (ihl h)
    · exact Nat.le_add_left_of_le (ihr h)
  | not operand ih =>
    obtain ⟨k, hk, rfl⟩ := List.mem_map.mp h
    exact Nat.succ_le_succ (ih hk)

/-- **Tags may be gained at even places and lost at odd ones.** Let the tags that an item loses be
asked for below odd numbers of `NOT`s only, and those that it gains below even numbers only; if the
filter has selected it, it still does. -/
theorem holds_of_parity {tags others : List String}
    (hlost : ∀ p ∈ tags, p ∉ others → ∀ n ∈ f.notsAbove p, Odd n)
    (hgained : ∀ p ∈ others, p ∉ tags → ∀ n ∈ f.notsAbove p, Even n) (h : f.holds tags = true) :
    f.holds others = true := by
  induction f generalizing tags others with
  | identifier pattern =>
    simp only [holds, decide_eq_true_eq] at h ⊢
    by_contra hnone
    -- the pattern stands below no `NOT`
    exact Nat.not_odd_zero (hlost pattern h hnone 0 (by simp [notsAbove]))
  | and left right ihl ihr =>
    simp only [notsAbove, List.forall_mem_append] at hlost hgained
    simp only [holds, Bool.and_eq_true] at h ⊢
    exact ⟨ihl (fun p hp hnot => (hlost p hp hnot).1) (fun p hp hnot => (hgained p hp hnot).1) h.1,
      ihr (fun p hp hnot => (hlost p hp hnot).2) (fun p hp hnot => (hgained p hp hnot).2) h.2⟩
  | or left right ihl ihr =>
    simp only [notsAbove, List.forall_mem_append] at hlost hgained
    simp only [holds, Bool.or_eq_true] at h ⊢
    exact h.imp
      (ihl (fun p hp hnot => (hlost p hp hnot).1) fun p hp hnot => (hgained p hp hnot).1)
      (ihr (fun p hp hnot => (hlost p hp hnot).2) fun p hp hnot => (hgained p hp hnot).2)
  | not operand ih =>
    simp only [notsAbove, List.forall_mem_map, Nat.odd_add_one, Nat.even_add_one,
      Nat.not_odd_iff_even, Nat.not_even_iff_odd] at hlost hgained
    simp only [holds, Bool.not_eq_true'] at h ⊢
    -- with the lists exchanged: if the second item met the operand, then so did the first
    by_contra hmet
    have hfirst := ih hgained hlost (by simpa using hmet)
    rw [hfirst] at h
    cases h

/-- **More tags, more or fewer items.** Suppose that an item has all the tags of another one. If
every pattern met by its additional tags stands only below even numbers of `NOT`s, then it is
selected whenever the other one is; and if every such pattern stands only below odd numbers, then
the other one is selected whenever it is. So no tag deselects an item for a filter without `NOT`. -/
theorem evaluate_monotone (f : Filter) {A B : Subjects} (hsub : ∀ tag ∈ A.tags, tag ∈ B.tags) :
    ((∀ p ∈ B.tags, p ∉ A.tags → ∀ n ∈ f.notsAbove p, Even n) →
        f.evaluate A = .ok true → f.evaluate B = .ok true) ∧
      ((∀ p ∈ B.tags, p ∉ A.tags → ∀ n ∈ f.notsAbove p, Odd n) →
        f.evaluate B = .ok true → f.evaluate A = .ok true) ∧
      (f.negations = 0 → f.evaluate A = .ok true → f.evaluate B = .ok true) := by
  simp only [evaluate_eq_holds, Except.ok.injEq]
  -- the smaller list has no tag of its own
  have hnone : ∀ {P : Nat → Prop}, ∀ p ∈ A.tags, p ∉ B.tags → ∀ n ∈ f.notsAbove p, P n :=
    fun p hp hnot => absurd (hsub p hp) hnot
  refine ⟨fun heven => holds_of_parity hnone heven, fun hodd => holds_of_parity hodd hnone,
    fun hpositive => holds_of_parity hnone fun p _ _ n hn => ?_⟩
  have hzero : n ≤ 0 := hpositive ▸ le_negations_of_mem hn
  obtain rfl : n = 0 := Nat.le_zero.mp hzero
  exact Even.zero

/-- `slow and not (flaky and not unit)`: the tag `unit` can only help, as it is asked for below two
`NOT`s. -/
theorem evaluate_monotone_even :
    let f : Filter := .and (.identifier "slow")
      (.not (.and (.identifier "flaky") (.not (.identifier "unit"))))
    let A : Subjects := .several ["slow"]
    let B : Subjects := .several ["unit", "slow"]
    (∀ tag ∈ A.tags, tag ∈ B.tags) ∧
      (∀ p ∈ B.tags, p ∉ A.tags → ∀ n ∈ f.notsAbove p, Even n) ∧ f.evaluate A = .ok true ∧
      f.evaluate B = .ok true := by
  intro f A B
  have hsub : ∀ tag ∈ A.tags, tag ∈ B.tags := by decide
  have heven : ∀ p ∈ B.tags, p ∉ A.tags → ∀ n ∈ f.notsAbove p, Even n := by decide
  have hA : f.evaluate A = .ok true := by rw [evaluate_eq_holds]; rfl
  exact ⟨hsub, heven, hA, (evaluate_monotone f hsub).1 heven hA⟩

end TagFilter.Filter
