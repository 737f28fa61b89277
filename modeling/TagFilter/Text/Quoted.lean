import TagFilter.Text.Printable

/-!
# Quoted text

A text is shown in a report between quotes, with every character that could not be seen written out.

* `Text.quoteFor` — single quotes, unless the text has a single quote and no double one;
* `Text.escape` — how one character is written between such quotes;
* `Text.quoted` — the quoted text.
-/

namespace TagFilter.Text

/-- The number in base sixteen with small letters, with zeros in front up to the given width. -/
def hex (width n : Nat) : List Char :=
  let digits := Nat.toDigits 16 n
  List.replicate (width - digits.length) '0' ++ digits

/-- The quote a text is put in: single, unless it has a single quote and no double one. -/
def quoteFor (text : List Char) : Char :=
  if '\'' ∈ text ∧ '"' ∉ text then '"' else '\''

/-- How a character is written between such quotes. The three most common controls have short
forms; a character that is not printable is written by its code point, in two, four or eight
digits. -/
def escape (quote c : Char) : List Char :=
  if c = quote ∨ c = '\\' then ['\\', c]
  else if c = '\t' then ['\\', 't']
  else if c = '\n' then ['\\', 'n']
  else if c = '\r' then ['\\', 'r']
  else if isPrintable c then [c]
  else if c.toNat < 0x100 then '\\' :: 'x' :: hex 2 c.toNat
  else if c.toNat < 0x10000 then '\\' :: 'u' :: hex 4 c.toNat
  else '\\' :: 'U' :: hex 8 c.toNat

/-- A text between quotes. -/
def quoted (text : String) : String :=
  let quote := quoteFor text.toList
  String.ofList (quote :: text.toList.flatMap (escape quote) ++ [quote])

end TagFilter.Text
