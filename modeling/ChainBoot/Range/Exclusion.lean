import ChainBoot.Range

/-!
# Exclusion

`Range.exclude r o` takes the bytes of `o` out of `r` and keeps one interval: what is left in
front of `o` or what is left behind it, whichever is longer, the front on a tie.
-/

namespace ChainBoot.Range

/-- the longer of the two pieces of `r` that `o` leaves, the front one on a tie -/
def exclude (r o : Range) : Range :=
  if r.overlaps o then
    if o.start ≤ r.start then between o.stop r.stop
    else if r.stop ≤ o.stop then between r.start o.start
    else
      let front := between r.start o.start
      let back := between o.stop r.stop
      if front.size < back.size then back else front
  else r

/-- the ranges of a list taken out one after another -/
def excludeAll (r : Range) (os : List Range) : Range := os.foldl exclude r

theorem exclude_of_not_overlaps {r o : Range} (h : r.overlaps o = false) : r.exclude o = r := by
  unfold exclude
  rw [if_neg (by rw [h]; decide)]

theorem excludeAll_nil (r : Range) : r.excludeAll [] = r := rfl
theorem excludeAll_cons (r o : Range) (os : List Range) :
    r.excludeAll (o :: os) = (r.exclude o).excludeAll os := rfl

end ChainBoot.Range
