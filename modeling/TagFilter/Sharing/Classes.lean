import TagFilter.Sharing.Digest
import TagFilter.Sharing.Equality

/-!
# Classes of equal filters

Filters are looked up by digest first and compared only where the digests agree.

* `Shared.classes` — for each filter of a list, the number of its class: how many different filters
  had been seen before the first one equal to it.
-/

namespace TagFilter.Shared

/-- A filter that has been seen, with its digest. -/
structure Seen where
  digest : Option UInt64
  filter : Shared

/-- Is a filter the one that has been seen? -/
def Seen.matches (digest : Option UInt64) (s : Shared) (seen : Seen) : Bool :=
  seen.digest == digest && seen.filter.same s

/-- The classes of filters, when the different ones in `seen` have been seen before. -/
def classesFrom (mix : Mixer) (seen : List Seen) : List Shared → List Nat
  | [] => []
  | s :: others =>
    let digest := s.digest? mix
    let number := seen.findIdx (Seen.matches digest s)
    -- the number is that of the first equal filter, or of a new class
    if number < seen.length then number :: classesFrom mix seen others
    else number :: classesFrom mix (seen ++ [⟨digest, s⟩]) others

/-- For each filter, how many different ones had been seen before the first one equal to it. -/
def classes (mix : Mixer) (filters : List Shared) : List Nat := classesFrom mix [] filters

end TagFilter.Shared
