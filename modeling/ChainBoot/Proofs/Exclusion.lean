import ChainBoot.Proofs.Range

/-!
# What exclusion keeps

Taking one range out of another keeps a single piece of what is left, `Longest`: no piece is longer,
and of those that are as long it is the first.  Taking out a list loses more than it has to, but what
is left meets none of the ranges, so that taking them out once more changes nothing.

* `longest_exclude`    one range;
* `within_excludeAll`  a list of them, which leaves a piece or nothing;
* `exclusion_keeps`    both.
-/

namespace ChainBoot.Range

variable {r o p q : Range}

/-- a piece of `r`, or nothing -/
def Within (p r : Range) : Prop := p.isEmpty = true ∨ r.contains p = true

theorem within_refl (r : Range) : r.Within r :=
  .inr ((contains_iff r r).mpr ⟨Nat.le_refl _, Nat.le_refl _⟩)

theorem within_iff : p.Within r ↔ p.start.val = p.stop.val
    ∨ r.start.val ≤ p.start.val ∧ p.stop.val ≤ r.stop.val := by
  unfold Within isEmpty
  rw [contains_iff, beq_iff_eq, Fin.ext_iff]

theorem Within.trans (hp : p.Within q) (hq : q.Within r) : p.Within r := by
  have hle : p.start.val ≤ p.stop.val := p.start_le_stop
  rw [within_iff] at *
  omega

/-- a piece of `r` without a byte of `o`, such that none is longer and none as long lies in front -/
structure Longest (r o p : Range) : Prop where
  within : p.Within r
  clear : p.overlaps o = false
  longest : ∀ q : Range, r.contains q = true → q.overlaps o = false → q.size ≤ p.size
  first : ∀ q : Range, r.contains q = true → q.overlaps o = false → q.size = p.size → 0 < p.size →
    p.start.val ≤ q.start.val

theorem within_exclude (r o : Range) : (r.exclude o).Within r := by
  cases excluded_exclude r o with
  | apart hclear hsame =>
    rw [hsame]
    exact within_refl r
  | front | back | innerFront | innerBack =>
    rw [within_iff]
    omega

theorem clear_exclude (r o : Range) : (r.exclude o).overlaps o = false :=
  (overlaps_eq_false_iff ..).mpr fun _ hx => (mem_of_mem_exclude hx).2

/-- every piece without a byte of `o` lies in front of `o` or behind it -/
theorem longest_exclude (r o : Range) : Longest r o (r.exclude o) := by
  have hpiece : ∀ q : Range, r.contains q = true → q.overlaps o = false →
      q.size ≤ (r.exclude o).size ∧ (q.size = (r.exclude o).size → 0 < (r.exclude o).size →
        (r.exclude o).start.val ≤ q.start.val) := by
    intro q hin hout
    have hin := (contains_iff r q).mp hin
    have hout : ¬ max q.start.val o.start.val < min q.stop.val o.stop.val := by
      rw [← overlaps_eq_true_iff, hout]
      exact Bool.false_ne_true
    unfold size
    cases excluded_exclude r o with
    | apart hclear hsame =>
      rw [hsame]
      omega
    | front | back | innerFront | innerBack => omega
  exact ⟨within_exclude r o, clear_exclude r o, fun q hin hout => (hpiece q hin hout).1,
    fun q hin hout => (hpiece q hin hout).2⟩

theorem exclude_eq_self_iff : r.exclude o = r ↔ r.overlaps o = false := by
  constructor
  · intro h
    rw [← h]
    exact clear_exclude r o
  · exact exclude_of_not_overlaps

theorem within_excludeAll (r : Range) (os : List Range) : (r.excludeAll os).Within r := by
  induction os generalizing r with
  | nil => exact within_refl r
  | cons o os ih => exact (ih (r.exclude o)).trans (within_exclude r o)

theorem clear_excludeAll (r : Range) {os : List Range} (h : o ∈ os) :
    (r.excludeAll os).overlaps o = false :=
  (overlaps_eq_false_iff ..).mpr fun _ hx => (mem_of_mem_excludeAll hx).2 o h

/-- **Exclusion keeps the first of the longest pieces, and all that earlier exclusions saw to.** -/
theorem exclusion_keeps (r : Range) :
    (∀ o, Longest r o (r.exclude o) ∧ (r.exclude o = r ↔ r.overlaps o = false))
    ∧ ∀ os, (r.excludeAll os).Within r
      ∧ (∀ o ∈ os, (r.excludeAll os).overlaps o = false)
      ∧ (r.excludeAll os).excludeAll os = r.excludeAll os := by
  refine ⟨fun o => ⟨longest_exclude r o, exclude_eq_self_iff⟩, fun os => ?_⟩
  have hclear : ∀ o ∈ os, (r.excludeAll os).overlaps o = false := fun o ho => clear_excludeAll r ho
  exact ⟨within_excludeAll r os, hclear, excludeAll_of_clear hclear⟩

/-- four pages with the second one taken out: the two behind it are left, and a module on their last
byte takes no more than that byte -/
theorem fourPages_keeps :
    (span 0x1000 0x4000).exclude (span 0x2000 0x1000) = span 0x3000 0x2000
    ∧ (∀ q : Range, (span 0x1000 0x4000).contains q = true → q.overlaps (span 0x2000 0x1000) = false →
        q.size ≤ 0x2000)
    ∧ ((span 0x1000 0x4000).excludeAll [span 0x2000 0x1000, inclusive 0x4FFF 0x4FFF]).overlaps
        (span 0x2000 0x1000) = false := by
  have hone : (span 0x1000 0x4000).exclude (span 0x2000 0x1000) = span 0x3000 0x2000 := by decide +kernel
  obtain ⟨hlongest, -⟩ := (exclusion_keeps (span 0x1000 0x4000)).1 (span 0x2000 0x1000)
  obtain ⟨-, hclear, -⟩ := (exclusion_keeps (span 0x1000 0x4000)).2
    [span 0x2000 0x1000, inclusive 0x4FFF 0x4FFF]
  refine ⟨hone, fun q hin hout => ?_, hclear _ (List.mem_cons_self ..)⟩
  have hle := hlongest.longest q hin hout
  rw [hone] at hle
  exact hle

end ChainBoot.Range
