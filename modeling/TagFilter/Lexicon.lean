import TagFilter.Token

/-!
# The lexicon: which characters part words, and which words are operators

* `isBlank` — the four characters that may stand between tokens;
* `isBoundary` — a character that ends a word: a blank or a parenthesis;
* `kindOfWord` — a word is an operator if it spells `and`, `or` or `not` in any mixture of capital
  and small letters, and a pattern otherwise.

No letter outside the Latin alphabet has a small form among the letters of the three operator
words, so folding the ASCII letters alone decides the question for every text.
-/

namespace TagFilter

/-- Space, tab, line feed and carriage return may stand between tokens. -/
def isBlank (c : Char) : Bool := c = ' ' || c = '\t' || c = '\n' || c = '\r'

/-- The two parentheses are tokens of their own. -/
def isParen (c : Char) : Bool := c = '(' || c = ')'

/-- A word ends before a blank and before a parenthesis. -/
def isBoundary (c : Char) : Bool := isBlank c || isParen c

/-- A word with its capital letters made small. -/
def foldCase (word : List Char) : List Char := word.map Char.toLower

/-- The operator a word spells, or `identifier` if it spells none. -/
def kindOfWord (word : List Char) : Token.Kind :=
  match foldCase word with
  | ['a', 'n', 'd'] => .and
  | ['o', 'r'] => .or
  | ['n', 'o', 't'] => .not
  | _ => .identifier

theorem isBoundary_of_isBlank {c : Char} (h : isBlank c = true) : isBoundary c = true := by
  simp [isBoundary, h]

/-- **A word is no parenthesis and no end mark.** -/
theorem kindOfWord_cases (word : List Char) :
    kindOfWord word = .identifier ∨ kindOfWord word = .and ∨ kindOfWord word = .or ∨
      kindOfWord word = .not := by
  unfold kindOfWord; split <;> simp

theorem kindOfWord_ne_eof (word : List Char) : kindOfWord word ≠ .eof := by
  rcases kindOfWord_cases word with h | h | h | h <;> simp [h]

end TagFilter
