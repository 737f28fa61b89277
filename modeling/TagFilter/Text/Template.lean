/-!
# Texts with holes

A hole in a text is a name between braces. Holes are filled one after the other, each in all its
places at once. A filling is text like any other from then on: it may bring in a hole whose turn
comes later, and that hole is filled as well.

* `Text.replace` — a text with another text in place of every occurrence of a third one;
* `Text.fill` — a text with its holes filled.
-/

namespace TagFilter.Text

/-- A text with `new` in place of every occurrence of `old`, found from left to right and without
overlaps. The first `passed` characters belong to an occurrence that has been replaced already. -/
def replaceFrom (old new : List Char) : (passed : Nat) → List Char → List Char
  | _, [] => []
  | passed + 1, _ :: text => replaceFrom old new passed text
  | 0, c :: text =>
    if old.isPrefixOf (c :: text) then new ++ replaceFrom old new (old.length - 1) text
    else c :: replaceFrom old new 0 text

/-- A text with `new` in place of every occurrence of `old`, which must not be empty. -/
def replace (old new text : String) : String :=
  String.ofList (replaceFrom old.toList new.toList 0 text.toList)

/-- A hole, as it is written in a text. -/
def hole (name : String) : String := "\x7b" ++ name ++ "\x7d"

/-- A text with its holes filled, in the order in which the fillings are given. -/
def fill (fillings : List (String × String)) (text : String) : String :=
  fillings.foldl (fun text (name, filling) => replace (hole name) filling text) text

end TagFilter.Text
