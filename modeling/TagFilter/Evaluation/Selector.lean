import TagFilter.Evaluation.Machine
import TagFilter.Filter.Reading

/-!
# Selectors

* `Filter.evaluate` — the value of a filter for an item with given tags;
* `selector` — a text made into a function of the tags. The text is read once, so that a mistake in
  it shows before the first item does.
-/

namespace TagFilter

/-- The value of a filter for an item with the given tags. -/
def Filter.evaluate (f : Filter) : Subjects → Except (Machine.Fault Empty) Bool :=
  evaluator (.ofFilter f)

/-- The function of the tags that a text spells. -/
def selector (text : String) :
    Except Filter.Refusal (Subjects → Except (Machine.Fault Empty) Bool) :=
  (Filter.parse text).map Filter.evaluate

end TagFilter
