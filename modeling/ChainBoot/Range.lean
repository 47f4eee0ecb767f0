import ChainBoot.Address

/-!
# Ranges of physical memory

A `Range` is a half-open interval of addresses, kept by its two bounds.  Both bounds are
addresses, so the last byte of memory is in no range, and a length that would pass it is cut.

* `Range.span a n`              `n` bytes from `a` on;
* `Range.inclusive a b`         both ends included, empty when `b < a`;
* `Range.between a b`           from `a` up to `b`, empty when `b ≤ a`;
* `Range.overlaps`              some byte is shared;
* `Range.contains`              the bounds of one lie within the bounds of the other;
* `Range.below`                 the part under a ceiling.

Membership `x ∈ r` is over the natural numbers, and every operation has a lemma that says which
bytes it leaves: `mem_span`, `mem_inclusive`, `mem_between`, `mem_below`, `overlaps_iff`,
`contains_iff`.
-/

namespace ChainBoot

structure Range where
  start : Address
  stop : Address
  start_le_stop : start ≤ stop
deriving DecidableEq

namespace Range

instance : Inhabited Range := ⟨⟨0, 0, Nat.le_refl _⟩⟩

instance : Membership Nat Range := ⟨fun r x => r.start.val ≤ x ∧ x < r.stop.val⟩

theorem mem_iff (r : Range) (x : Nat) : x ∈ r ↔ r.start.val ≤ x ∧ x < r.stop.val := Iff.rfl

/-- from `a` up to `b` -/
def between (a b : Address) : Range :=
  if h : a ≤ b then ⟨a, b, h⟩ else ⟨a, a, Nat.le_refl _⟩

/-- `n` bytes from `a` on, cut at the last address -/
def span (a : Address) (n : Nat) : Range :=
  ⟨a, ⟨min (a.val + n) 0xFFFFFFFFFFFFFFFF, by omega⟩, by
    show a.val ≤ min (a.val + n) 0xFFFFFFFFFFFFFFFF
    omega⟩

/-- from `first` to `last`, both included -/
def inclusive (first last : Address) : Range := span first (last.val + 1 - first.val)

def size (r : Range) : Nat := r.stop.val - r.start.val

def isEmpty (r : Range) : Bool := r.start == r.stop

/-- some byte lies in both -/
def overlaps (r o : Range) : Bool :=
  max r.start.val o.start.val < min r.stop.val o.stop.val

/-- the bounds of `o` lie within the bounds of `r` -/
def contains (r o : Range) : Bool := r.start ≤ o.start && o.stop ≤ r.stop

/-- the part of `r` below `ceiling` -/
def below (r : Range) (ceiling : Address) : Range :=
  if r.stop ≤ ceiling then r else between r.start ceiling

/-! ## bounds and sizes -/

@[simp] theorem start_between (a b : Address) : (between a b).start = a := by
  unfold between; split <;> rfl

@[simp] theorem stop_between (a b : Address) : (between a b).stop.val = max a.val b.val := by
  unfold between
  split
  · rename_i h
    have h : a.val ≤ b.val := h
    show b.val = _
    omega
  · rename_i h
    have h : ¬ a.val ≤ b.val := h
    show a.val = _
    omega

@[simp] theorem start_span (a : Address) (n : Nat) : (span a n).start = a := rfl

theorem stop_span (a : Address) (n : Nat) :
    (span a n).stop.val = min (a.val + n) 0xFFFFFFFFFFFFFFFF := rfl

theorem size_span (a : Address) (n : Nat) :
    (span a n).size = min n (0xFFFFFFFFFFFFFFFF - a.val) := by
  show min (a.val + n) 0xFFFFFFFFFFFFFFFF - a.val = _
  omega

@[simp] theorem start_below (r : Range) (c : Address) : (r.below c).start = r.start := by
  unfold below
  split
  · rfl
  · exact start_between ..

theorem isEmpty_iff (r : Range) : r.isEmpty = true ↔ r.size = 0 := by
  have h : r.start.val ≤ r.stop.val := r.start_le_stop
  unfold isEmpty size
  rw [beq_iff_eq, Fin.ext_iff]
  omega

/-! ## bytes -/

theorem mem_span (a : Address) (n x : Nat) :
    x ∈ span a n ↔ a.val ≤ x ∧ x < min (a.val + n) 0xFFFFFFFFFFFFFFFF := Iff.rfl

theorem mem_inclusive (a b : Address) (x : Nat) :
    x ∈ inclusive a b ↔ a.val ≤ x ∧ x ≤ b.val ∧ x < 0xFFFFFFFFFFFFFFFF := by
  rw [inclusive, mem_span]
  omega

theorem mem_between (a b : Address) (x : Nat) : x ∈ between a b ↔ a.val ≤ x ∧ x < b.val := by
  rw [mem_iff, start_between, stop_between]
  omega

theorem mem_below (r : Range) (c : Address) (x : Nat) : x ∈ r.below c ↔ x ∈ r ∧ x < c.val := by
  unfold below
  split
  · rename_i h
    have h : r.stop.val ≤ c.val := h
    rw [mem_iff]
    omega
  · rename_i h
    have h : ¬ r.stop.val ≤ c.val := h
    rw [mem_between, mem_iff]
    omega

theorem overlaps_iff (r o : Range) : r.overlaps o = true ↔ ∃ x : Nat, x ∈ r ∧ x ∈ o := by
  unfold overlaps
  rw [decide_eq_true_iff]
  constructor
  · intro h
    exact ⟨max r.start.val o.start.val, ⟨by omega, by omega⟩, by omega, by omega⟩
  · rintro ⟨x, ⟨h1, h2⟩, h3, h4⟩
    omega

theorem overlaps_comm (r o : Range) : r.overlaps o = o.overlaps r := by
  rw [Bool.eq_iff_iff, overlaps_iff, overlaps_iff]
  exact ⟨fun ⟨x, h1, h2⟩ => ⟨x, h2, h1⟩, fun ⟨x, h1, h2⟩ => ⟨x, h2, h1⟩⟩

theorem contains_iff (r o : Range) :
    r.contains o = true ↔ r.start.val ≤ o.start.val ∧ o.stop.val ≤ r.stop.val := by
  unfold contains
  rw [Bool.and_eq_true, decide_eq_true_iff, decide_eq_true_iff, Fin.le_def, Fin.le_def]

end Range

end ChainBoot
