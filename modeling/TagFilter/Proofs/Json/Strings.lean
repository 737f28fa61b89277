import TagFilter.Json.Writer
import TagFilter.Json.Reader

/-!
# Written strings are read back

The reader takes a string apart in the units in which the writer put it together: one unit for each
character, be it the character itself, a backslash with a letter, or four digits.

* `Reader.stringBody_plain`, `Reader.stringBody_letter`, `Reader.stringBody_unit` — the three sorts
  of unit;
* `Reader.stringBody_escape` — whatever a character was written as, it is read as this character;
* `Reader.string_writeString` — a written string is read back, whatever follows it.
-/

namespace TagFilter.Json.Reader

variable {c : Char} {rest : List Char}

-- `stringBody` takes a text apart in overlapping patterns: its equations are derived once, here
attribute [local simp] stringBody

/-! ### One unit -/

/-- A character that needs no escape stands for itself. -/
theorem stringBody_plain (hquote : c ≠ '"') (hbackslash : c ≠ '\\') (hcontrol : ¬ c < ' ') :
    stringBody (c :: rest) = (stringBody rest).map (cons c) := by
  rw [stringBody, if_neg hcontrol]
  · exact hquote
  · intro _ _ _ _ _ h
    exact absurd h hbackslash
  · intro _ _ h
    exact absurd h hbackslash

/-- A backslash and a letter stand for one character. -/
theorem stringBody_letter {letter : Char} (h : escaped? letter = some c) :
    stringBody ('\\' :: letter :: rest) = (stringBody rest).map (cons c) := by
  rw [stringBody, h]
  -- the letter that announces four digits stands for no character of its own
  rintro _ _ _ _ _ rfl
  have hnone : escaped? 'u' = none := rfl
  rw [hnone] at h
  exact absurd h (by simp)

/-- A backslash and the digits of a code unit that is no half of a pair stand for the character of
this number. -/
theorem stringBody_unit {p q r s : Char} (h : codeUnit? p q r s = some c.toNat)
    (hunit : c.toNat < 0xd800) :
    stringBody ('\\' :: 'u' :: p :: q :: r :: s :: rest) = (stringBody rest).map (cons c) := by
  have hhigh : isHighUnit c.toNat = false := by
    simp [isHighUnit]
    omega
  have hlow : isLowUnit c.toNat = false := by
    simp [isLowUnit]
    omega
  rw [stringBody, h]
  simp [hhigh, hlow, Char.ofNat_toNat]

/-- A control is written with two zeros and two digits, and these are the digits of its number. -/
theorem hex_control (hcontrol : c < ' ') :
    Text.hex 4 c.toNat = ['0', '0', Nat.digitChar (c.toNat / 16), Nat.digitChar (c.toNat % 16)] ∧
      codeUnit? '0' '0' (Nat.digitChar (c.toNat / 16)) (Nat.digitChar (c.toNat % 16)) =
        some c.toNat := by
  have hall : ∀ n < 32,
      Text.hex 4 n = ['0', '0', Nat.digitChar (n / 16), Nat.digitChar (n % 16)] ∧
        codeUnit? '0' '0' (Nat.digitChar (n / 16)) (Nat.digitChar (n % 16)) = some n := by
    decide +kernel
  exact hall c.toNat hcontrol

/-! ### Whole strings -/

/-- What a character is written as is one of the three sorts of unit. -/
theorem escape_cases (c : Char) :
    (∃ letter, escape c = ['\\', letter] ∧ escaped? letter = some c) ∨
      (c < ' ' ∧ escape c = '\\' :: 'u' :: Text.hex 4 c.toNat) ∨
      (c ≠ '"' ∧ c ≠ '\\' ∧ ¬ c < ' ' ∧ escape c = [c]) := by
  unfold escape
  split
  next h =>
    refine .inl ⟨c, rfl, ?_⟩
    rcases h with rfl | rfl <;> rfl
  next hmark =>
    rw [not_or] at hmark
    -- five controls have letters of their own
    iterate 5
      split
      · rename_i h
        exact .inl ⟨_, rfl, h ▸ rfl⟩
    split
    next hcontrol => exact .inr (.inl ⟨hcontrol, rfl⟩)
    next hcontrol => exact .inr (.inr ⟨hmark.1, hmark.2, hcontrol, rfl⟩)

/-- **Every character is read back** from what it was written as. -/
theorem stringBody_escape (c : Char) (rest : List Char) :
    stringBody (escape c ++ rest) = (stringBody rest).map (cons c) := by
  obtain ⟨letter, hescape, hread⟩ | ⟨hcontrol, hescape⟩ |
    ⟨hquote, hbackslash, hcontrol, hescape⟩ := escape_cases c
  · rw [hescape]
    exact stringBody_letter hread
  · obtain ⟨hhex, hread⟩ := hex_control hcontrol
    rw [hescape, hhex]
    exact stringBody_unit hread (Nat.lt_trans hcontrol (by decide))
  · rw [hescape]
    exact stringBody_plain hquote hbackslash hcontrol

/-- The characters between the quotes are read back, up to the closing quote. -/
theorem stringBody_flatMap_escape (chs rest : List Char) :
    stringBody (chs.flatMap escape ++ '"' :: rest) = some (chs, rest) := by
  induction chs with
  | nil => simp
  | cons c chs ih =>
    rw [List.flatMap_cons, List.append_assoc, stringBody_escape, ih, Option.map_some, cons]

/-- **A written string is read back**, whatever follows it. -/
theorem string_writeString (s : String) (rest : List Char) :
    string (writeString s ++ rest) = some (s, rest) := by
  have hquotes : writeString s ++ rest = '"' :: (s.toList.flatMap escape ++ '"' :: rest) := by
    simp [writeString]
  rw [hquotes, string, stringBody_flatMap_escape]
  simp

end TagFilter.Json.Reader
