import Mathlib.Tactic.ByContra
import ChainBoot.Range.Exclusion

/-!
# Ranges as sets of bytes

Disjointness and containment read byte by byte, and the bytes that exclusion leaves:

* `overlaps_eq_false_iff`   two ranges that do not overlap have no byte in common;
* `excluded_exclude`        the cases of an exclusion, with the bounds of what is left in each;
* `mem_of_mem_exclude`      what is left of a range lies in it, outside the range taken out;
* `mem_of_mem_excludeAll`   the same for a list of ranges.
-/

namespace ChainBoot.Range

instance (r : Range) (x : Nat) : Decidable (x ∈ r) := inferInstanceAs (Decidable (_ ∧ _))

theorem overlaps_eq_true_iff (r o : Range) : r.overlaps o = true ↔
    max r.start.val o.start.val < min r.stop.val o.stop.val := decide_eq_true_iff

theorem overlaps_eq_false_iff (r o : Range) : r.overlaps o = false ↔ ∀ x : Nat, x ∈ r → x ∉ o := by
  constructor
  · intro h x hr ho
    have ht : r.overlaps o = true := (overlaps_iff r o).mpr ⟨x, hr, ho⟩
    rw [h] at ht
    cases ht
  · intro h
    by_contra hne
    obtain ⟨x, hr, ho⟩ := (overlaps_iff r o).mp (Bool.of_not_eq_false hne)
    exact h x hr ho

theorem not_overlaps_of_subset {r s o : Range} (hsub : ∀ x : Nat, x ∈ s → x ∈ r)
    (h : r.overlaps o = false) : s.overlaps o = false :=
  (overlaps_eq_false_iff s o).mpr fun x hs => (overlaps_eq_false_iff r o).mp h x (hsub x hs)

theorem mem_of_contains {r o : Range} (h : r.contains o = true) {x : Nat} (hx : x ∈ o) : x ∈ r := by
  have hb := (contains_iff r o).mp h
  rw [mem_iff] at hx ⊢
  omega

/-- bounds within bounds are bytes among bytes; a range without bytes counts by its place -/
theorem contains_iff_subset (r o : Range) : r.contains o = true ↔ (∀ x : Nat, x ∈ o → x ∈ r)
    ∧ ((∀ x : Nat, x ∉ o) → r.start.val ≤ o.start.val ∧ o.start.val ≤ r.stop.val) := by
  have ho : o.start.val ≤ o.stop.val := o.start_le_stop
  constructor
  · intro h
    have hb := (contains_iff r o).mp h
    exact ⟨fun x => mem_of_contains h, fun _ => ⟨hb.1, by omega⟩⟩
  · rintro ⟨hsub, hempty⟩
    rw [contains_iff]
    by_cases hlt : o.start.val < o.stop.val
    · -- the first and the last byte of `o` are in `r`
      have hfirst := hsub o.start.val ((mem_iff ..).mpr ⟨Nat.le_refl _, hlt⟩)
      have hlast := hsub (o.stop.val - 1) ((mem_iff ..).mpr (by omega))
      rw [mem_iff] at hfirst hlast
      omega
    · have hnone : ∀ x : Nat, x ∉ o := by
        intro x hx
        rw [mem_iff] at hx
        omega
      have hplace := hempty hnone
      omega

theorem size_eq_zero_iff (r : Range) : r.size = 0 ↔ ∀ x : Nat, x ∉ r := by
  have h : r.start.val ≤ r.stop.val := r.start_le_stop
  constructor
  · intro h0 x hx
    rw [mem_iff] at hx
    unfold size at h0
    omega
  · intro hnone
    by_contra hne
    refine hnone r.start.val ((mem_iff ..).mpr ⟨Nat.le_refl _, ?_⟩)
    unfold size at hne
    omega

/-- a range without bytes overlaps none -/
theorem not_overlaps_of_size_eq_zero {r : Range} (h : r.size = 0) (o : Range) :
    r.overlaps o = false :=
  (overlaps_eq_false_iff r o).mpr fun x hx => absurd hx ((size_eq_zero_iff r).mp h x)

theorem size_pos_of_overlaps {r o : Range} (h : o.overlaps r = true) : 0 < r.size := by
  refine Nat.pos_of_ne_zero fun h0 => ?_
  rw [overlaps_comm, not_overlaps_of_size_eq_zero h0] at h
  cases h

theorem stop_span_of_le {a : Address} {n : Nat} (h : a.val + n ≤ 0xFFFFFFFFFFFFFFFF) :
    (span a n).stop.val = a.val + n := by
  rw [stop_span]
  omega

theorem mem_span_of_le {a : Address} {n : Nat} (h : a.val + n ≤ 0xFFFFFFFFFFFFFFFF) (x : Nat) :
    x ∈ span a n ↔ a.val ≤ x ∧ x < a.val + n := by
  rw [mem_span]
  omega

/-- in front of the last byte of memory nothing is cut off -/
theorem mem_span_of_lt {a : Address} {n x : Nat} (hx : x < 0xFFFFFFFFFFFFFFFF) :
    x ∈ span a n ↔ a.val ≤ x ∧ x < a.val + n := by
  rw [mem_span]
  omega

/-- and the last byte of memory is in no range -/
theorem lt_top_of_mem {r : Range} {x : Nat} (hx : x ∈ r) : x < 0xFFFFFFFFFFFFFFFF := by
  have hstop := r.stop.isLt
  rw [mem_iff] at hx
  omega

theorem size_span_of_le {a : Address} {n : Nat} (h : a.val + n ≤ 0xFFFFFFFFFFFFFFFF) :
    (span a n).size = n := by
  rw [size_span]
  omega

/-- a span that shows all its bytes is not cut -/
theorem le_of_size_span {a : Address} {n : Nat} (h : (span a n).size = n) :
    a.val + n ≤ 0xFFFFFFFFFFFFFFFF := by
  have ha : a.val < 0x10000000000000000 := a.isLt
  rw [size_span] at h
  omega

theorem stop_below (r : Range) (c : Address) :
    (r.below c).stop.val = max r.start.val (min r.stop.val c.val) := by
  have hr : r.start.val ≤ r.stop.val := r.start_le_stop
  unfold below
  split
  · rename_i h
    have h : r.stop.val ≤ c.val := h
    omega
  · rename_i h
    have h : ¬ r.stop.val ≤ c.val := h
    rw [stop_between]
    omega

theorem ext_of_bounds {r o : Range} (h1 : r.start.val = o.start.val) (h2 : r.stop.val = o.stop.val) :
    r = o := by
  obtain ⟨rs, re, rh⟩ := r
  obtain ⟨os, oe, oh⟩ := o
  obtain rfl : rs = os := Fin.ext h1
  obtain rfl : re = oe := Fin.ext h2
  rfl

/-! ## what exclusion leaves -/

/-- what is left of `r` without `o`, by where `o` lies -/
inductive Excluded (r o p : Range) : Prop where
  /-- `o` takes nothing -/
  | apart (hclear : r.overlaps o = false) (hsame : p = r)
  /-- `o` takes the front, and what is behind it is left -/
  | front (hmeet : max r.start.val o.start.val < min r.stop.val o.stop.val)
      (hstart : o.start.val ≤ r.start.val) (hfrom : p.start.val = o.stop.val)
      (hto : p.stop.val = max o.stop.val r.stop.val)
  /-- `o` takes the back, and what is in front of it is left -/
  | back (hmeet : max r.start.val o.start.val < min r.stop.val o.stop.val)
      (hstart : r.start.val < o.start.val) (hstop : r.stop.val ≤ o.stop.val)
      (hfrom : p.start.val = r.start.val) (hto : p.stop.val = o.start.val)
  /-- `o` lies inside, and no more is behind it than in front -/
  | innerFront (hmeet : max r.start.val o.start.val < min r.stop.val o.stop.val)
      (hstart : r.start.val < o.start.val) (hstop : o.stop.val < r.stop.val)
      (hfrom : p.start.val = r.start.val) (hto : p.stop.val = o.start.val)
      (hlonger : r.stop.val - o.stop.val ≤ o.start.val - r.start.val)
  /-- `o` lies inside, and more is behind it -/
  | innerBack (hmeet : max r.start.val o.start.val < min r.stop.val o.stop.val)
      (hstart : r.start.val < o.start.val) (hstop : o.stop.val < r.stop.val)
      (hfrom : p.start.val = o.stop.val) (hto : p.stop.val = r.stop.val)
      (hlonger : o.start.val - r.start.val < r.stop.val - o.stop.val)

theorem excluded_exclude (r o : Range) : Excluded r o (r.exclude o) := by
  cases hov : r.overlaps o with
  | false => exact .apart hov (exclude_of_not_overlaps hov)
  | true =>
    have hmeet := (overlaps_eq_true_iff r o).mp hov
    unfold exclude
    rw [if_pos hov]
    by_cases hfront : o.start ≤ r.start
    · rw [if_pos hfront]
      exact .front hmeet hfront (by rw [start_between]) (stop_between ..)
    · have hlt : r.start.val < o.start.val := Nat.lt_of_not_le hfront
      rw [if_neg hfront]
      by_cases hback : r.stop ≤ o.stop
      · rw [if_pos hback]
        exact .back hmeet hlt hback (by rw [start_between]) (by rw [stop_between]; omega)
      · have hgt : o.stop.val < r.stop.val := Nat.lt_of_not_le hback
        have hsizes : (between r.start o.start).size = o.start.val - r.start.val
            ∧ (between o.stop r.stop).size = r.stop.val - o.stop.val := by
          unfold size
          rw [stop_between, stop_between, start_between, start_between]
          omega
        rw [if_neg hback]
        dsimp only
        rw [hsizes.1, hsizes.2]
        by_cases hlonger : o.start.val - r.start.val < r.stop.val - o.stop.val
        · rw [if_pos hlonger]
          exact .innerBack hmeet hlt hgt (by rw [start_between]) (by rw [stop_between]; omega) hlonger
        · rw [if_neg hlonger]
          exact .innerFront hmeet hlt hgt (by rw [start_between]) (by rw [stop_between]; omega)
            (Nat.not_lt.mp hlonger)

theorem mem_of_mem_exclude {r o : Range} {x : Nat} (h : x ∈ r.exclude o) : x ∈ r ∧ x ∉ o := by
  rw [mem_iff] at h
  rw [mem_iff, mem_iff]
  cases excluded_exclude r o with
  | apart hclear hsame =>
    rw [hsame] at h
    exact ⟨h, (overlaps_eq_false_iff r o).mp hclear x h⟩
  | front | back | innerFront | innerBack => omega

theorem mem_of_mem_excludeAll {os : List Range} {r : Range} {x : Nat} (h : x ∈ r.excludeAll os) :
    x ∈ r ∧ ∀ o ∈ os, x ∉ o := by
  induction os generalizing r with
  | nil => exact ⟨h, fun o ho => absurd ho List.not_mem_nil⟩
  | cons o os ih =>
    rw [excludeAll_cons] at h
    obtain ⟨hx, hrest⟩ := ih h
    obtain ⟨hr, ho⟩ := mem_of_mem_exclude hx
    refine ⟨hr, fun u hu => ?_⟩
    rcases List.mem_cons.mp hu with rfl | hu
    · exact ho
    · exact hrest u hu

theorem excludeAll_of_clear {os : List Range} {r : Range} (h : ∀ o ∈ os, r.overlaps o = false) :
    r.excludeAll os = r := by
  induction os with
  | nil => rfl
  | cons o os ih =>
    obtain ⟨ho, hos⟩ := List.forall_mem_cons.mp h
    rw [excludeAll_cons, exclude_of_not_overlaps ho, ih hos]

theorem exclude_front {r : Range} {a : Address} (hlo : r.start.val ≤ a.val)
    (hhi : a.val ≤ r.stop.val) : r.exclude (between .zero a) = between a r.stop := by
  have hfrom : (between .zero a).start.val = 0 := by rw [start_between]; rfl
  have hto : (between .zero a).stop.val = a.val := (stop_between ..).trans (Nat.max_eq_right (Nat.zero_le _))
  have hbounds : (r.exclude (between .zero a)).start.val = a.val
      ∧ (r.exclude (between .zero a)).stop.val = r.stop.val := by
    cases excluded_exclude r (between .zero a) with
    | apart hclear hsame =>
      -- then no byte of `r` is in front of the address
      have hmeet : ¬ max r.start.val (between .zero a).start.val
          < min r.stop.val (between .zero a).stop.val := by
        rw [← overlaps_eq_true_iff, hclear]
        exact Bool.false_ne_true
      rw [hsame]
      omega
    | front | back | innerFront | innerBack => omega
  apply ext_of_bounds
  · rw [start_between]
    exact hbounds.1
  · rw [stop_between, hbounds.2]
    omega

end ChainBoot.Range
