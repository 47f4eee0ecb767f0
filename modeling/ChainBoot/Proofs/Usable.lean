import ChainBoot.Placement
import ChainBoot.Proofs.Search

/-!
# Which memory a search gives away

A place that a search finds lies in one available entry of the memory map, below the ceiling and
clear of all that is reserved.  The search passes over the entries of other kinds, so where the map
lists a byte twice, once as available and once as something else, it may give that byte away.

* `findRegion_sound`                 what holds of every place found, byte by byte;
* `Descriptor.Usable`                no byte of a range is listed as anything else than available;
* `Descriptor.Contested`             a byte that the map lists in both ways;
* `Located.Exposed`                  such a byte where a search can reach it;
* `findRegion_usable_iff`            a place found avoids the entries of other kinds exactly where
                                     it has no contested byte, and all places do exactly where no
                                     byte is exposed;
* `findRegion_meets_unavailable`     a map where a search gives away reserved memory.
-/

namespace ChainBoot

/-- no byte of the range is listed as anything else than available -/
def Descriptor.Usable (d : Descriptor) (r : Range) : Prop :=
  ∀ e ∈ d.memoryEntries, e.isAvailable = false → r.overlaps e.range = false

/-- the map lists the byte as available, and as something else as well -/
def Descriptor.Contested (d : Descriptor) (x : Nat) : Prop :=
  (∃ e ∈ d.memoryEntries, e.isAvailable = true ∧ x ∈ e.range)
    ∧ ∃ e ∈ d.memoryEntries, e.isAvailable = false ∧ x ∈ e.range

/-- the bytes of the page of `x` up to `x` itself -/
def Address.pageUpTo (x : Address) : Range := .inclusive x.alignDown x

namespace Address

variable {x : Address}

theorem start_pageUpTo (x : Address) : x.pageUpTo.start = x.alignDown := rfl

theorem stop_pageUpTo (hx : x.val < 0xFFFFFFFFFFFFFFFF) : x.pageUpTo.stop.val = x.val + 1 := by
  have hle := alignDown_le x
  show min (x.alignDown.val + (x.val + 1 - x.alignDown.val)) _ = _
  omega

end Address

namespace Located

/-- a byte listed as something else than available, and the bytes of its page up to it are all
available and not in use -/
structure Exposed (l : Located) (x : Address) : Prop where
  blocked : ∃ e ∈ l.descriptor.memoryEntries, e.isAvailable = false ∧ x.val ∈ e.range
  available : ∃ e ∈ l.descriptor.memoryEntries,
    e.isAvailable = true ∧ e.range.contains x.pageUpTo = true
  extent : x.pageUpTo.overlaps l.extent = false
  framebuffers : ∀ f ∈ l.descriptor.framebuffers, x.pageUpTo.overlaps f.extent = false
  modules : ∀ m ∈ l.descriptor.modules, x.pageUpTo.overlaps m.2.range = false

variable {l : Located} {image : Range} {needed : Nat} {fit : Fit} {ceiling a x : Address}

/-- **A place found is aligned, ends below the ceiling, lies in one available entry, and touches
nothing that is reserved.** -/
theorem findRegion_sound (h : l.findRegion image needed fit ceiling = some a) :
    pageSize ∣ a.val ∧ a.val + needed ≤ ceiling.val
      ∧ (∃ e ∈ l.descriptor.memoryEntries, e.isAvailable = true
          ∧ e.range.start.val ≤ a.val ∧ a.val + needed ≤ e.range.stop.val)
      ∧ ∀ x : Nat, a.val ≤ x → x < a.val + needed →
          x ∉ image ∧ x ∉ l.extent ∧ (∀ f ∈ l.descriptor.framebuffers, x ∉ f.extent)
            ∧ ∀ m ∈ l.descriptor.modules, x ∉ m.2.range := by
  have hfree := free_of_findRegion h
  have htop := hfree.le_top
  refine ⟨hfree.aligned, hfree.below, ?_, fun x hlo hhi => ?_⟩
  · obtain ⟨e, he, havail, hin⟩ := hfree.available
    rw [Range.contains_iff, Range.stop_span_of_le htop] at hin
    exact ⟨e, he, havail, hin⟩
  · have hx : x ∈ Range.span a needed := (Range.mem_span_of_le htop x).mpr ⟨hlo, hhi⟩
    have hout : ∀ r, (Range.span a needed).overlaps r = false → x ∉ r := fun r hr =>
      (Range.overlaps_eq_false_iff _ r).mp hr x hx
    exact ⟨hout _ hfree.clear_image, hout _ hfree.clear_extent,
      fun f hf => hout _ (hfree.clear_framebuffer hf), fun m hm => hout _ (hfree.clear_module hm)⟩

/-- available memory from `0x1000` up to `0x8000`, a framebuffer of `0x40` bytes at `0x5800` and a
module of a page at `0x6000`, listed by a descriptor at `0x7000` -/
def crowded : Located where
  address := .ofUInt32 0x7000
  descriptor := ⟨List.flatMap Bytes.le32 [112, 0, 6, 40, 24, 0, 0x1000, 0, 0x7000, 0, 1, 0,
    8, 32, 0x5800, 0, 0x10, 4, 4, 0x0120, 3, 17, 0x6000, 0x6FFF, 0, 0, 0, 8]⟩

theorem crowded_sound :
    crowded.findRegion (.span 0x1000 0x1000) 0x1800 .highest 0x7800 = some 0x4000
    ∧ ∀ x : Nat, 0x4000 ≤ x → x < 0x5800 → x ∉ Range.span 0x1000 0x1000 ∧ x ∉ crowded.extent
      ∧ (∀ f ∈ crowded.descriptor.framebuffers, x ∉ f.extent)
      ∧ ∀ m ∈ crowded.descriptor.modules, x ∉ m.2.range := by
  have hfound : crowded.findRegion (.span 0x1000 0x1000) 0x1800 .highest 0x7800 = some 0x4000 := by
    decide +kernel
  obtain ⟨-, -, -, hclear⟩ := findRegion_sound hfound
  exact ⟨hfound, fun x hlo hhi => hclear x hlo hhi⟩

/-! ## bytes that a search can reach -/

/-- below a ceiling right behind `x`, an entry that holds the page of `x` up to `x` ends with it -/
theorem exists_pagesBelow? {e : MemoryEntry} {c : Address} (hc : c.val = x.val + 1)
    (hin : e.range.contains x.pageUpTo = true) :
    ∃ r, e.pagesBelow? c = some r ∧ r.start.val ≤ x.alignDown.val ∧ r.stop = c := by
  have hlt := c.isLt
  have hdown := Address.alignDown_le x
  obtain ⟨hlo, hhi⟩ := (Range.contains_iff ..).mp hin
  rw [Address.start_pageUpTo] at hlo
  rw [Address.stop_pageUpTo (by omega)] at hhi
  obtain ⟨s, hs, -, hsx⟩ := Address.exists_alignUp?_le x.dvd_alignDown hlo
  refine ⟨(Range.between s e.range.stop).below c, ?_, ?_, Fin.ext ?_⟩
  · unfold MemoryEntry.pagesBelow?
    rw [hs]
    exact if_pos (show s.val < c.val by omega)
  · rw [Range.start_below, Range.start_between]
    exact hsx
  · rw [Range.stop_below, Range.start_between, Range.stop_between]
    omega

theorem candidate?_pageUpTo {e : MemoryEntry} {reserved : List Range} {c : Address}
    (hc : c.val = x.val + 1) (hin : e.range.contains x.pageUpTo = true)
    (hclear : ∀ r ∈ reserved, x.pageUpTo.overlaps r = false) :
    e.candidate? x.pageUpTo.size c (.between .zero x.alignDown :: reserved) = some x.pageUpTo := by
  have hlt := c.isLt
  have hdown := Address.alignDown_le x
  have hstop := Address.stop_pageUpTo (x := x) (by omega)
  obtain ⟨r, hr, hlo, hhi⟩ := exists_pagesBelow? hc hin
  have hleft : Range.between x.alignDown c = x.pageUpTo := by
    refine Range.ext_of_bounds ?_ ?_
    · rw [Range.start_between, Address.start_pageUpTo]
    · rw [Range.stop_between, hstop]
      omega
  have hrest : r.excludeAll (.between .zero x.alignDown :: reserved) = x.pageUpTo := by
    rw [Range.excludeAll_cons, Range.exclude_front hlo (by rw [hhi]; omega), hhi, hleft,
      Range.excludeAll_of_clear hclear]
  have hsize : x.pageUpTo.size = x.val + 1 - x.alignDown.val := by
    unfold Range.size
    rw [hstop, Address.start_pageUpTo]
  have halign : (r.excludeAll (.between .zero x.alignDown :: reserved)).start.alignUp?
      = some x.alignDown := by
    rw [hrest, Address.start_pageUpTo, Address.alignUp?_of_dvd x.dvd_alignDown]
  have hroom : x.alignDown.val + x.pageUpTo.size
      ≤ (r.excludeAll (.between .zero x.alignDown :: reserved)).stop.val := by
    rw [hrest, hstop, hsize]
    omega
  rw [MemoryEntry.candidate?_of_left hr halign (by omega) hroom, hrest, Fin.ext (hstop.trans hc.symm),
    hleft]

theorem anchor_pageUpTo (hx : x.val < 0xFFFFFFFFFFFFFFFF) :
    x.pageUpTo.anchor x.pageUpTo.size = x.alignDown := by
  have hdown := Address.alignDown_le x
  have hstart : x.pageUpTo.stop.val - x.pageUpTo.size = x.alignDown.val := by
    unfold Range.size
    rw [Address.stop_pageUpTo hx, Address.start_pageUpTo]
    omega
  apply Fin.ext
  show (x.pageUpTo.stop.val - x.pageUpTo.size) / pageSize * pageSize = _
  rw [hstart, Nat.div_mul_cancel x.dvd_alignDown]

namespace Exposed

theorem lt_top (h : l.Exposed x) : x.val < 0xFFFFFFFFFFFFFFFF := by
  obtain ⟨e, -, -, hx⟩ := h.blocked
  have hstop : e.range.stop.val ≤ 0xFFFFFFFFFFFFFFFF := Nat.min_le_right ..
  rw [Range.mem_iff] at hx
  omega

theorem clear (h : l.Exposed x) :
    ∀ r ∈ (l.reservedRanges image).tail, x.pageUpTo.overlaps r = false := by
  intro r hr
  have hr : r = l.extent ∨ (∃ f ∈ l.descriptor.framebuffers, f.extent = r)
      ∨ ∃ m ∈ l.descriptor.modules, m.2.range = r := by
    rw [reservedRanges_eq] at hr
    simpa using hr
  rcases hr with rfl | ⟨f, hf, rfl⟩ | ⟨m, hm, rfl⟩
  · exact h.extent
  · exact h.framebuffers f hf
  · exact h.modules m hm

/-- **A search can be made to give an exposed byte away**, as the last one of the place found. -/
theorem exists_findRegion (h : l.Exposed x) : ∃ c : Address,
    l.findRegion (.between .zero x.alignDown) x.pageUpTo.size .highest c = some x.alignDown := by
  have hx := h.lt_top
  have hdown := Address.alignDown_le x
  have hsize : x.pageUpTo.size = x.val + 1 - x.alignDown.val := by
    unfold Range.size
    rw [Address.stop_pageUpTo hx, Address.start_pageUpTo]
  let c : Address := ⟨x.val + 1, by omega⟩
  have hmem : x.pageUpTo ∈ l.candidates (.between .zero x.alignDown) x.pageUpTo.size c := by
    obtain ⟨e, he, havail, hin⟩ := h.available
    have hreserved : l.reservedRanges (.between .zero x.alignDown)
        = .between .zero x.alignDown :: (l.reservedRanges (.between .zero x.alignDown)).tail := by
      rw [reservedRanges_eq]
      rfl
    refine mem_candidates_iff.mpr ⟨e, he, havail, ?_⟩
    rw [hreserved]
    exact candidate?_pageUpTo rfl hin h.clear
  obtain ⟨a, hfound, hanchor⟩ := anchor_le_of_mem_candidates hmem
  -- no candidate ends higher, and the place found ends below the ceiling
  have hle : x.alignDown.val ≤ a.val := by
    rw [← anchor_pageUpTo hx]
    exact hanchor
  have hbelow : a.val + x.pageUpTo.size ≤ x.val + 1 := (free_of_findRegion hfound).below
  refine ⟨c, ?_⟩
  rw [hfound, Option.some.injEq]
  apply Fin.ext
  omega

end Exposed

theorem exposed_of_findRegion (h : l.findRegion image needed fit ceiling = some a)
    {e : MemoryEntry} (he : e ∈ l.descriptor.memoryEntries) (hkind : e.isAvailable = false)
    (hmeet : (Range.span a needed).overlaps e.range = true) : ∃ x, l.Exposed x := by
  have hfree := free_of_findRegion h
  have htop := hfree.le_top
  obtain ⟨y, hy, hye⟩ := (Range.overlaps_iff ..).mp hmeet
  have hy' := (Range.mem_span_of_le htop y).mp hy
  let x : Address := ⟨y, by omega⟩
  have hdown : x.alignDown.val ≤ y := Address.alignDown_le x
  have hnear : y < x.alignDown.val + pageSize := Address.lt_alignDown_add x
  have hstop : x.pageUpTo.stop.val = y + 1 := Address.stop_pageUpTo (show y < _ by omega)
  -- the place starts on a page, so it holds the front of the page as well
  have hlo : a.val ≤ x.alignDown.val := by
    have hdvd := x.dvd_alignDown
    have hdvd' := hfree.aligned
    unfold pageSize at hdvd hdvd' hnear
    omega
  have hsub : ∀ z : Nat, z ∈ x.pageUpTo → z ∈ Range.span a needed := by
    intro z hz
    rw [Range.mem_iff, hstop, Address.start_pageUpTo] at hz
    rw [Range.mem_span_of_le htop]
    omega
  obtain ⟨e', he', havail, hin⟩ := hfree.available
  refine ⟨x, ⟨⟨e, he, hkind, hye⟩, ⟨e', he', havail, ?_⟩,
    Range.not_overlaps_of_subset hsub hfree.clear_extent,
    fun f hf => Range.not_overlaps_of_subset hsub (hfree.clear_framebuffer hf),
    fun m hm => Range.not_overlaps_of_subset hsub (hfree.clear_module hm)⟩⟩
  rw [Range.contains_iff, Range.stop_span_of_le htop, Range.start_span] at hin
  rw [Range.contains_iff, hstop, Address.start_pageUpTo]
  omega

/-! ## places found and the map -/

theorem usable_iff_of_findRegion (h : l.findRegion image needed fit ceiling = some a) :
    l.descriptor.Usable (.span a needed)
      ↔ ∀ x : Nat, x ∈ Range.span a needed → ¬ l.descriptor.Contested x := by
  constructor
  · rintro husable x hx ⟨-, e, he, hkind, hxe⟩
    exact (Range.overlaps_eq_false_iff ..).mp (husable e he hkind) x hx hxe
  · intro hclear e he hkind
    refine (Range.overlaps_eq_false_iff ..).mpr fun x hx hxe => ?_
    obtain ⟨e', he', havail, hin⟩ := (free_of_findRegion h).available
    exact hclear x hx ⟨⟨e', he', havail, Range.mem_of_contains hin hx⟩, e, he, hkind, hxe⟩

/-- **A search keeps to usable memory exactly where the place found has no contested byte, and every
search does exactly where no byte is exposed.** -/
theorem findRegion_usable_iff (l : Located) :
    (∀ image needed fit ceiling a, l.findRegion image needed fit ceiling = some a →
      (l.descriptor.Usable (.span a needed)
        ↔ ∀ x : Nat, x ∈ Range.span a needed → ¬ l.descriptor.Contested x))
    ∧ ((∀ image needed fit ceiling a, l.findRegion image needed fit ceiling = some a →
          l.descriptor.Usable (.span a needed))
        ↔ ∀ x, ¬ l.Exposed x) := by
  refine ⟨fun _ _ _ _ _ h => usable_iff_of_findRegion h, fun husable x hx => ?_,
    fun hnone _ _ _ _ _ h e he hkind => ?_⟩
  · obtain ⟨c, hfound⟩ := hx.exists_findRegion
    obtain ⟨e, he, hkind, hxe⟩ := hx.blocked
    refine (Range.overlaps_eq_false_iff ..).mp (husable _ _ _ _ _ hfound e he hkind) x.val ?_ hxe
    have htop := hx.lt_top
    have hdown := Address.alignDown_le x
    rw [Range.mem_span]
    unfold Range.size
    rw [Address.stop_pageUpTo htop, Address.start_pageUpTo]
    omega
  · by_contra hmeet
    obtain ⟨x, hx⟩ := exposed_of_findRegion h he hkind (Bool.of_not_eq_false hmeet)
    exact hnone x hx

/-- a map with the memory from `0x1000` up to `0x3000` available, and from `0x2000` on reserved -/
def disputed : Located where
  address := .ofUInt32 0x9000
  descriptor := ⟨List.flatMap Bytes.le32 [80, 0, 6, 64, 24, 0, 0x1000, 0, 0x2000, 0, 1, 0,
    0x2000, 0, 0x1000, 0, 2, 0, 0, 8]⟩

/-- the search gives away two pages of which the second one is reserved; a segment would not be
loaded there -/
theorem findRegion_meets_unavailable :
    Descriptor.parse disputed.descriptor.bytes = .ok disputed.descriptor
      ∧ disputed.findRegion (.span 0 0) 0x2000 .highest 0x8000 = some 0x1000
      ∧ ∃ e ∈ disputed.descriptor.memoryEntries, e.isAvailable = false
          ∧ (Range.span 0x1000 0x2000).overlaps e.range = true
          ∧ disputed.obstacle? (.span 0 0) (.span 0x1000 0x2000) = some (.unavailable e) :=
  ⟨rfl, by decide +kernel⟩

theorem disputed_usable : disputed.findRegion (.span 0 0) 0x1000 .highest 0x2000 = some 0x1000
    ∧ disputed.descriptor.Usable (.span 0x1000 0x1000) := by
  have hfound : disputed.findRegion (.span 0 0) 0x1000 .highest 0x2000 = some 0x1000 := by
    decide +kernel
  have hfrom : ∀ e ∈ disputed.descriptor.memoryEntries, e.isAvailable = false →
      e.range.start.val = 0x2000 := by
    decide +kernel
  refine ⟨hfound, ((findRegion_usable_iff disputed).1 _ _ _ _ _ hfound).mpr ?_⟩
  rintro x hx ⟨-, e, he, hkind, hxe⟩
  have hstart := hfrom e he hkind
  have hx' := (Range.mem_span_of_le (a := 0x1000) (n := 0x1000) (by decide) x).mp hx
  have hlt : x < 0x2000 := hx'.2
  rw [Range.mem_iff] at hxe
  omega

end Located

end ChainBoot
