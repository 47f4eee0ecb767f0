import Mathlib.Algebra.Order.BigOperators.Group.List
import Mathlib.Tactic.Ring
import ChainBoot.Proofs.Exclusion
import ChainBoot.Proofs.Search

/-!
# Ample memory is found

Each reserved range that meets what is left of an entry takes its own bytes and at most half of the
others, so `k` ranges leave at least the `2 ^ k`-th part of an entry less the bytes they take
(`size_le_excludeAll`).  Where this is more than is needed and a page, the search succeeds, whatever
the other entries are.

* `Range.inter`, `Range.shared`                         the bytes that ranges have in common;
* `candidate?_of_clear`, `exists_candidate?_of_ample`   an entry that has the room has a candidate;
* `candidates_split`                                    the candidates in front of that of an entry;
* `findRegion_ample`                                    a search finds a place if some entry is ample.
-/

namespace ChainBoot

namespace Range

variable {r p o : Range}

/-! ## common bytes -/

/-- the bytes that two ranges share -/
def inter (r o : Range) : Range :=
  between ⟨max r.start.val o.start.val, by omega⟩ ⟨min r.stop.val o.stop.val, by omega⟩

theorem size_inter (r o : Range) :
    (r.inter o).size = min r.stop.val o.stop.val - max r.start.val o.start.val := by
  rw [inter, size, stop_between, start_between]
  dsimp only
  omega

/-- how many bytes `r` shares with the ranges of a list, each of them counted on its own -/
def shared (r : Range) (os : List Range) : Nat := (os.map fun o => (r.inter o).size).sum

theorem shared_cons (r o : Range) (os : List Range) :
    r.shared (o :: os) = (r.inter o).size + r.shared os := by
  rw [shared, List.map_cons, List.sum_cons]
  rfl

section
variable (h : p.Within r)
include h

theorem overlaps_of_within (ho : p.overlaps o = true) : r.overlaps o = true := by
  have hle : p.start.val ≤ p.stop.val := p.start_le_stop
  rw [within_iff] at h
  rw [overlaps_eq_true_iff] at *
  omega

theorem size_inter_le_of_within (o : Range) : (p.inter o).size ≤ (r.inter o).size := by
  rw [within_iff] at h
  rw [size_inter, size_inter]
  omega

theorem countP_le_of_within (os : List Range) : os.countP p.overlaps ≤ os.countP r.overlaps :=
  List.countP_mono_left fun _ _ ho => overlaps_of_within h ho

theorem shared_le_of_within (os : List Range) : p.shared os ≤ r.shared os :=
  List.sum_le_sum fun o _ => size_inter_le_of_within h o

end

/-! ## what exclusion costs -/

/-- besides the bytes of `o`, at most half of the range is lost -/
theorem size_le_exclude (r o : Range) : r.size ≤ 2 * (r.exclude o).size + (r.inter o).size := by
  rw [size_inter]
  unfold size
  cases excluded_exclude r o with
  | apart hclear hsame =>
    rw [hsame]
    omega
  | front | back | innerFront | innerBack => omega

theorem size_le_excludeAll (r : Range) (os : List Range) :
    r.size ≤ 2 ^ os.countP r.overlaps * ((r.excludeAll os).size + r.shared os) := by
  induction os generalizing r with
  | nil => simp [excludeAll_nil]
  | cons o os ih =>
    rw [excludeAll_cons, shared_cons]
    cases hov : r.overlaps o with
    | false =>
      have hle := ih r
      rw [exclude_of_not_overlaps hov, List.countP_cons_of_neg (by rw [hov]; exact Bool.false_ne_true)]
      exact hle.trans (Nat.mul_le_mul_left _ (by omega))
    | true =>
      have hwithin := within_exclude r o
      have hk := countP_le_of_within hwithin os
      have hs := shared_le_of_within hwithin os
      have hstep := size_le_exclude r o
      rw [List.countP_cons_of_pos hov]
      generalize hx : (r.inter o).size = x at hstep ⊢
      generalize hl : ((r.exclude o).excludeAll os).size = left
      have hrest : (r.exclude o).size ≤ 2 ^ os.countP r.overlaps * (left + r.shared os) := by
        refine (ih (r.exclude o)).trans ?_
        rw [hl]
        exact Nat.mul_le_mul (Nat.pow_le_pow_right (by decide) hk) (by omega)
      calc r.size ≤ 2 * (r.exclude o).size + x := hstep
        _ ≤ 2 * (2 ^ os.countP r.overlaps * (left + r.shared os)) + 2 ^ (os.countP r.overlaps + 1) * x :=
          Nat.add_le_add (Nat.mul_le_mul_left 2 hrest)
            (Nat.le_mul_of_pos_left x (Nat.pow_pos (by decide)))
        _ = 2 ^ (os.countP r.overlaps + 1) * (left + (x + r.shared os)) := by ring

end Range

theorem Address.exists_alignUp? {a : Address} (h : a.val + (pageSize - 1) < 0x10000000000000000) :
    ∃ b, a.alignUp? = some b ∧ b.val ≤ a.val + (pageSize - 1) := by
  obtain ⟨b, hb⟩ : ∃ b, a.alignUp? = some b := ⟨_, dif_pos h⟩
  obtain ⟨-, -, hlt, -⟩ := (alignUp?_eq_some_iff ..).mp hb
  exact ⟨b, hb, Nat.le_pred_of_lt hlt⟩

/-! ## candidates -/

namespace MemoryEntry

variable {e : MemoryEntry} {ceiling s a : Address} {u needed : Nat} {reserved : List Range} {r : Range}

theorem pagesBelow?_eq_span (hs : e.range.start.alignUp? = some s) (hlt : s.val < ceiling.val)
    (hu : u = min e.range.stop.val ceiling.val - s.val) (hpos : 0 < u) :
    e.pagesBelow? ceiling = some (.span s u) := by
  have hc := ceiling.isLt
  have hlt' : s < ceiling := hlt
  unfold pagesBelow?
  rw [hs]
  dsimp only
  rw [if_pos hlt', Option.some.injEq]
  apply Range.ext_of_bounds
  · rw [Range.start_below, Range.start_between, Range.start_span]
  · rw [Range.stop_below, Range.start_between, Range.stop_between, Range.stop_span]
    omega

theorem candidate?_of_clear (hpages : e.pagesBelow? ceiling = some (.span s u)) (hs : pageSize ∣ s.val)
    (hneeded : 0 < needed) (hroom : needed ≤ u) (htop : s.val + u ≤ 0xFFFFFFFFFFFFFFFF)
    (hclear : reserved.countP (Range.span s u).overlaps = 0) :
    e.candidate? needed ceiling reserved = some (.span s u) := by
  have hleft : (Range.span s u).excludeAll reserved = .span s u :=
    Range.excludeAll_of_clear fun o ho => Bool.eq_false_iff.mpr (List.countP_eq_zero.mp hclear o ho)
  have hstop := Range.stop_span_of_le htop
  have halign : ((Range.span s u).excludeAll reserved).start.alignUp? = some s := by
    rw [hleft]
    exact Address.alignUp?_of_dvd hs
  have hfits : s.val + needed ≤ ((Range.span s u).excludeAll reserved).stop.val := by
    rw [hleft, hstop]
    omega
  rw [candidate?_of_left hpages halign hneeded hfits, hleft, Option.some.injEq]
  apply Range.ext_of_bounds
  · rw [Range.start_between, Range.start_span]
  · rw [Range.stop_between, hstop]
    omega

/-- with enough pages, the reserved ranges leave the room and a page more -/
theorem exists_candidate?_of_ample (hpages : e.pagesBelow? ceiling = some r) (hneeded : 0 < needed)
    (hample : 2 ^ reserved.countP r.overlaps * (needed + 0xFFF + r.shared reserved) ≤ r.size) :
    ∃ c, e.candidate? needed ceiling reserved = some c := by
  have hleft : needed + 0xFFF ≤ (r.excludeAll reserved).size := by
    have hle := Nat.le_of_mul_le_mul_left (hample.trans (r.size_le_excludeAll reserved))
      (Nat.pow_pos (by decide))
    omega
  have hstop := (r.excludeAll reserved).stop.isLt
  unfold Range.size at hleft
  obtain ⟨a, ha, hle⟩ := Address.exists_alignUp? (a := (r.excludeAll reserved).start)
    (by rw [pageSize]; omega)
  rw [pageSize] at hle
  exact ⟨_, candidate?_of_left hpages ha hneeded (by omega)⟩

end MemoryEntry

namespace Located

variable {l : Located} {image r : Range} {needed u k : Nat} {ceiling s : Address}
  {before after : List MemoryEntry} {e : MemoryEntry}

theorem candidates_split (hmap : l.descriptor.memoryEntries = before ++ e :: after)
    (havail : e.isAvailable = true)
    (hr : e.candidate? needed ceiling (l.reservedRanges image) = some r) :
    ∃ front back, l.candidates image needed ceiling = front ++ r :: back
      ∧ ∀ c ∈ front, ∃ b ∈ before, b.isAvailable = true
          ∧ b.Candidate needed ceiling (l.reservedRanges image) c := by
  have hcons := List.filterMap_cons_some (l := after.filter MemoryEntry.isAvailable)
    (f := fun b => b.candidate? needed ceiling (l.reservedRanges image)) hr
  have hall : l.candidates image needed ceiling = (before.filter MemoryEntry.isAvailable).filterMap
        (fun b => b.candidate? needed ceiling (l.reservedRanges image))
      ++ (e :: after.filter MemoryEntry.isAvailable).filterMap
        fun b => b.candidate? needed ceiling (l.reservedRanges image) := by
    rw [candidates, hmap, List.filter_append, List.filter_cons_of_pos havail, List.filterMap_append]
  rw [hcons] at hall
  refine ⟨_, _, hall, fun c hc => ?_⟩
  obtain ⟨b, hb, hcand⟩ := List.mem_filterMap.mp hc
  obtain ⟨hmem, hbavail⟩ := List.mem_filter.mp hb
  exact ⟨b, hmem, hbavail, MemoryEntry.candidate?_spec hcand⟩

theorem exists_findRegion (h : r ∈ l.candidates image needed ceiling) (fit : Fit) :
    ∃ a, l.findRegion image needed fit ceiling = some a := by
  cases fit with
  | lowest =>
    obtain ⟨c, cs, hcs⟩ := List.exists_cons_of_ne_nil (List.ne_nil_of_mem h)
    exact ⟨c.start, by rw [findRegion, hcs]; rfl⟩
  | highest =>
    obtain ⟨a, ha, -⟩ := anchor_le_of_mem_candidates h
    exact ⟨a, ha⟩

/-- **Where an entry is ample, a search finds a place.**  If nothing is reserved in the entry, the
place is at least as high as it could be there, or the start of it unless an earlier entry has one. -/
theorem findRegion_ample (hmap : l.descriptor.memoryEntries = before ++ e :: after)
    (havail : e.isAvailable = true) (hneeded : 1 ≤ needed)
    (hs : e.range.start.alignUp? = some s) (hlt : s.val < ceiling.val)
    (hu : u = min e.range.stop.val ceiling.val - s.val) (hpos : 0 < u)
    (hk : k = (l.reservedRanges image).countP (Range.span s u).overlaps) :
    (k = 0 ∧ needed ≤ u
        ∨ 2 ^ k * (needed + 0xFFF + (Range.span s u).shared (l.reservedRanges image)) ≤ u →
      ∀ fit, ∃ a, l.findRegion image needed fit ceiling = some a)
    ∧ (k = 0 → needed ≤ u →
      (∃ a, l.findRegion image needed .highest ceiling = some a
        ∧ (s.val + u - needed) / pageSize * pageSize ≤ a.val)
      ∧ ∃ a, l.findRegion image needed .lowest ceiling = some a
        ∧ (a = s ∨ ∃ b ∈ before, b.isAvailable = true ∧ a.val ∈ b.range)) := by
  have hc := ceiling.isLt
  have hpages := MemoryEntry.pagesBelow?_eq_span hs hlt hu hpos
  have htop : s.val + u ≤ 0xFFFFFFFFFFFFFFFF := by omega
  have hdvd : pageSize ∣ s.val := ((Address.alignUp?_eq_some_iff ..).mp hs).1
  have hclear : k = 0 → needed ≤ u →
      e.candidate? needed ceiling (l.reservedRanges image) = some (.span s u) := fun h0 hroom =>
    MemoryEntry.candidate?_of_clear hpages hdvd hneeded hroom htop (hk.symm.trans h0)
  constructor
  · intro hroom fit
    obtain ⟨r, hr⟩ : ∃ r, e.candidate? needed ceiling (l.reservedRanges image) = some r := by
      rcases hroom with ⟨h0, hroom⟩ | hample
      · exact ⟨_, hclear h0 hroom⟩
      · have hsize := Range.size_span_of_le htop
        rw [hk] at hample
        exact MemoryEntry.exists_candidate?_of_ample hpages hneeded (hample.trans_eq hsize.symm)
    obtain ⟨front, back, hsplit, -⟩ := candidates_split hmap havail hr
    exact exists_findRegion (r := r) (by rw [hsplit]; simp) fit
  · intro h0 hroom
    obtain ⟨front, back, hsplit, hfront⟩ := candidates_split hmap havail (hclear h0 hroom)
    have hmem : Range.span s u ∈ l.candidates image needed ceiling := by
      rw [hsplit]
      simp
    constructor
    · obtain ⟨a, ha, hle⟩ := anchor_le_of_mem_candidates hmem
      refine ⟨a, ha, ?_⟩
      have hanchor : ((Range.span s u).anchor needed).val = (s.val + u - needed) / pageSize * pageSize := by
        rw [← Range.stop_span_of_le htop]
        rfl
      rw [← hanchor]
      exact hle
    · cases front with
      | nil => exact ⟨s, by rw [findRegion, hsplit]; rfl, .inl rfl⟩
      | cons c cs =>
        obtain ⟨b, hb, hbavail, hcand⟩ := hfront c (List.mem_cons_self ..)
        refine ⟨c.start, by rw [findRegion, hsplit]; rfl, .inr ⟨b, hb, hbavail, ?_⟩⟩
        exact Range.mem_of_contains hcand.inside ⟨Nat.le_refl _, hcand.nonempty⟩

/-- an entry of sixteen mebibytes behind one that is too small, a module of a page and a byte in
it, and the descriptor at the end of it -/
def roomy : Located where
  address := .ofUInt32 0x10F0000
  descriptor := ⟨List.flatMap Bytes.le32 [112, 0, 6, 64, 24, 0, 0x1000, 0, 0x1000, 0, 1, 0,
    0x100800, 0, 0x1000000, 0, 1, 0, 3, 17, 0x800000, 0x801000, 0, 0, 0, 8, 0, 0]⟩

/-- the second entry is ample for a mebibyte, and below the module nothing is in the way of one -/
theorem roomy_ample :
    (∀ fit, ∃ a, roomy.findRegion (.span 0 0) 0x100000 fit 0x10F0800 = some a)
    ∧ ∃ a, roomy.findRegion (.span 0 0) 0x100000 .highest 0x800000 = some a ∧ 0x700000 ≤ a.val := by
  have hmap : roomy.descriptor.memoryEntries = [⟨.ofUInt32 0x1000, 0x1000, .available⟩]
      ++ ⟨.ofUInt32 0x100800, 0x1000000, .available⟩ :: [] := by decide +kernel
  have hs : (MemoryEntry.mk (.ofUInt32 0x100800) 0x1000000 .available).range.start.alignUp?
      = some 0x101000 := by decide +kernel
  constructor
  · exact (findRegion_ample (u := 0xFEF800) (k := 2) hmap (by decide) (by decide) hs (by decide)
      (by decide +kernel) (by decide) (by decide +kernel)).1 (.inr (by decide +kernel))
  · exact ((findRegion_ample (u := 0x6FF000) (k := 0) hmap (by decide) (by decide) hs (by decide)
      (by decide +kernel) (by decide) (by decide +kernel)).2 rfl (by decide)).1

end Located

end ChainBoot
