import TagFilter.Filter.Refusal
import TagFilter.Grammar.Rules

/-!
# Filters read from tokens and from text

* `Filter.ofTokens` — the filter that a closed list of tokens spells. A list is closed if it ends
  with the end mark and has no other;
* `Filter.parse` — the filter that a text spells.
-/

namespace TagFilter.Filter

/-- The filter that a closed list of tokens spells. -/
def ofTokens (ts : List Token) : Except Refusal Filter :=
  if !ts.getLast?.any Token.isEnd then .error .unfinished
  else if ts.dropLast.any Token.isEnd then .error .endInside
  else (Grammar.sentence ts).1.mapError .stopped

/-- The filter that a text spells. -/
def parse (text : String) : Except Refusal Filter :=
  match tokenize text with
  | .error fault => .error (.unreadable fault)
  | .ok ts => ofTokens ts

end TagFilter.Filter
