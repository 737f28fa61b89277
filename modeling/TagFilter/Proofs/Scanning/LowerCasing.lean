import Mathlib
import TagFilter.Lexicon

/-!
# Words in small letters

An operator may be written in any mixture of capital and small letters, so a word is compared with
the operators in its small form. The lexicon folds the letters of the Latin alphabet and leaves all
others alone. Here it is shown that nothing is lost by this, whatever small forms other letters
have:

* `LowerCasing` — a way to write words in small letters. It is known on ASCII words. Of any other
  word it is only known that a trace of the foreign letter is left: its small form is foreign too,
  or it is a `k` (the small form of the Kelvin sign, the one foreign letter with an ASCII small
  form);
* `LowerCasing.small_eq_iff` — such a trace appears in no operator, so a word has an operator as its
  small form exactly if it does when the ASCII letters alone are folded;
* `WordKind` — which kind a word has by its small form, and `wordKind_iff`: it is `kindOfWord`.
-/

namespace TagFilter

/-- A way to write words in small letters. -/
structure LowerCasing where
  /-- The word in small letters. -/
  small : String → String
  /-- An ASCII word is folded letter by letter. -/
  small_ascii (word : String) (h : ∀ c ∈ word.toList, c.toNat < 128) :
    (small word).toList = word.toList.map Char.toLower
  /-- A foreign letter leaves a trace in the small form. -/
  small_foreign (word : String) (h : ∃ c ∈ word.toList, 128 ≤ c.toNat) :
    ∃ c ∈ (small word).toList, 128 ≤ c.toNat ∨ c = 'k'

/-- A letter outside ASCII is not folded. -/
theorem toLower_of_foreign {c : Char} (h : 128 ≤ c.toNat) : c.toLower = c := by
  have hrange : ¬ (c.val ≥ 'A'.val ∧ c.val ≤ 'Z'.val) := by
    rintro ⟨-, hle⟩
    have hnat : c.toNat ≤ 90 := hle
    omega
  rw [Char.toLower, dif_neg hrange]

/-- Folding the ASCII letters alone keeps every foreign letter. -/
theorem mem_foldCase_of_foreign {c : Char} {word : List Char} (hc : c ∈ word)
    (h : 128 ≤ c.toNat) : c ∈ foldCase word := by
  rw [← toLower_of_foreign h]
  exact List.mem_map_of_mem hc

namespace LowerCasing

/-- Folding the letters of the Latin alphabet and no others. -/
def latin : LowerCasing where
  small word := String.ofList (foldCase word.toList)
  small_ascii word _ := by rw [String.toList_ofList]; rfl
  small_foreign := by
    rintro word ⟨c, hc, hforeign⟩
    refine ⟨c, ?_, .inl hforeign⟩
    rw [String.toList_ofList]
    exact mem_foldCase_of_foreign hc hforeign

variable (lower : LowerCasing)

/-- **Folding the ASCII letters finds the same words.** A text of ASCII letters without a `k` is the
small form of a word exactly if it is what folding the ASCII letters makes of the word. -/
theorem small_eq_iff {word target : String}
    (htarget : ∀ c ∈ target.toList, c.toNat < 128 ∧ c ≠ 'k') :
    lower.small word = target ↔ foldCase word.toList = target.toList := by
  by_cases hascii : ∀ c ∈ word.toList, c.toNat < 128
  · rw [← String.toList_inj, lower.small_ascii word hascii]
    rfl
  · -- a foreign letter leaves a trace on both sides, and the target has none
    push Not at hascii
    obtain ⟨d, hd, hforeign⟩ := lower.small_foreign word hascii
    obtain ⟨c, hc, hc'⟩ := hascii
    constructor
    · rintro rfl
      rcases hforeign with hforeign | rfl
      · exact absurd (htarget d hd).1 (by omega)
      · exact absurd rfl (htarget 'k' hd).2
    · intro h
      have hmem : c ∈ target.toList := h ▸ mem_foldCase_of_foreign hc hc'
      exact absurd (htarget c hmem).1 (by omega)

end LowerCasing

/-- A word is an operator if its small form is the operator's, and a pattern otherwise. -/
structure WordKind (lower : LowerCasing) (word : String) (kind : Token.Kind) : Prop where
  and_iff : kind = .and ↔ lower.small word = "and"
  or_iff : kind = .or ↔ lower.small word = "or"
  not_iff : kind = .not ↔ lower.small word = "not"
  otherwise (hand : kind ≠ .and) (hor : kind ≠ .or) (hnot : kind ≠ .not) : kind = .identifier

/-- The kind of a word is settled by what folding the ASCII letters makes of it. -/
theorem kindOfWord_iff (word : List Char) :
    (kindOfWord word = .and ↔ foldCase word = "and".toList) ∧
      (kindOfWord word = .or ↔ foldCase word = "or".toList) ∧
      (kindOfWord word = .not ↔ foldCase word = "not".toList) := by
  have hand : "and".toList = ['a', 'n', 'd'] := rfl
  have hor : "or".toList = ['o', 'r'] := rfl
  have hnot : "not".toList = ['n', 'o', 't'] := rfl
  rw [hand, hor, hnot, kindOfWord]
  split <;> simp_all

/-- **The lexicon settles the kind of every word**, whatever the small forms of foreign letters. -/
theorem wordKind_iff (lower : LowerCasing) (word : String) (kind : Token.Kind) :
    WordKind lower word kind ↔ kind = kindOfWord word.toList := by
  obtain ⟨hand, hor, hnot⟩ := kindOfWord_iff word.toList
  rw [← lower.small_eq_iff (by simp)] at hand hor hnot
  constructor
  · intro h
    -- the two kinds are the same operator or none
    have hsame_and : kind = .and ↔ kindOfWord word.toList = .and := h.and_iff.trans hand.symm
    have hsame_or : kind = .or ↔ kindOfWord word.toList = .or := h.or_iff.trans hor.symm
    have hsame_not : kind = .not ↔ kindOfWord word.toList = .not := h.not_iff.trans hnot.symm
    rcases kindOfWord_cases word.toList with hk | hk | hk | hk
    · rw [hk]
      exact h.otherwise (by simp [hsame_and, hk]) (by simp [hsame_or, hk]) (by simp [hsame_not, hk])
    · rw [hk, hsame_and, hk]
    · rw [hk, hsame_or, hk]
    · rw [hk, hsame_not, hk]
  · rintro rfl
    refine ⟨hand, hor, hnot, fun h1 h2 h3 => ?_⟩
    rcases kindOfWord_cases word.toList with hk | hk | hk | hk
    · exact hk
    · exact absurd hk h1
    · exact absurd hk h2
    · exact absurd hk h3

end TagFilter
