/-!
# Worklists

Filters are walked with lists of entries that are still to be dealt with. Such a walk ends because
the entries that take the place of one are together worth less than it.

* `Worklist.worth` — what the entries of a worklist are worth together;
* `Worklist.worth_cons`, `Worklist.worth_append` — the worth of a longer worklist.
-/

namespace TagFilter.Worklist

variable {α : Type}

/-- What the entries of a worklist are worth together. -/
def worth (weight : α → Nat) : List α → Nat
  | [] => 0
  | entry :: others => weight entry + worth weight others

@[simp] theorem worth_nil (weight : α → Nat) : worth weight [] = 0 := rfl

@[simp] theorem worth_cons (weight : α → Nat) (entry : α) (others : List α) :
    worth weight (entry :: others) = weight entry + worth weight others := rfl

@[simp] theorem worth_append (weight : α → Nat) (entries others : List α) :
    worth weight (entries ++ others) = worth weight entries + worth weight others := by
  induction entries with
  | nil => simp
  | cons entry entries ih => simp only [List.cons_append, worth_cons, ih, Nat.add_assoc]

end TagFilter.Worklist
