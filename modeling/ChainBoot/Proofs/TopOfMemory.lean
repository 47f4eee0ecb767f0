import ChainBoot.Proofs.Placement

/-!
# Segments at the top of memory

A range ends in front of the last byte of memory, and what would pass it is cut.  The check of a
kernel looks at ranges; here a segment, an entry of the map and the descriptor are what their two
numbers say, with nothing cut off.  Up to the last byte but one this is the same.  A segment that
passes the last byte is checked up to there, and written beyond.

* `Located.Fits`           a segment lies in available memory, clear of all else, to its last byte;
* `Located.LastByteFree`   what this asks of the last byte of memory;
* `fits_iff`               which of the segments that pass the check fit;
* `validate_fits_iff`      the same for kernels, and for which maps every kernel that passes fits;
* `validate_passes_top`    a kernel that passes with a segment that no memory can hold.
-/

namespace ChainBoot

/-- the end of a segment -/
def Elf.Segment.stop (s : Elf.Segment) : Nat := s.paddr.val + s.memsz.toNat

/-- loading the segment writes the byte -/
def Elf.Segment.Fills (s : Elf.Segment) (x : Nat) : Prop := s.paddr.val ≤ x ∧ x < s.stop

instance (s : Elf.Segment) (x : Nat) : Decidable (s.Fills x) := inferInstanceAs (Decidable (_ ∧ _))

/-- the end of an entry -/
def MemoryEntry.stop (e : MemoryEntry) : Nat := e.base.val + e.length.toNat

/-- the entry speaks of the byte -/
def MemoryEntry.Lists (e : MemoryEntry) (x : Nat) : Prop := e.base.val ≤ x ∧ x < e.stop

instance (e : MemoryEntry) (x : Nat) : Decidable (e.Lists x) := inferInstanceAs (Decidable (_ ∧ _))

namespace Located

/-- the byte belongs to the descriptor -/
def Takes (l : Located) (x : Nat) : Prop :=
  l.address.val ≤ x ∧ x < l.address.val + l.descriptor.size

instance (l : Located) (x : Nat) : Decidable (l.Takes x) := inferInstanceAs (Decidable (_ ∧ _))

/-- every byte of the segment is a byte of memory and of one available entry, and none belongs to an
entry of another kind, to the image or to the descriptor -/
structure Fits (l : Located) (image : Range) (s : Elf.Segment) : Prop where
  inMemory : s.stop ≤ 0x10000000000000000
  available : ∃ e ∈ l.descriptor.memoryEntries, e.isAvailable = true ∧ ∀ x, s.Fills x → e.Lists x
  unavailable : ∀ e ∈ l.descriptor.memoryEntries, e.isAvailable = false →
    ∀ x, s.Fills x → ¬ e.Lists x
  image : ∀ x : Nat, s.Fills x → x ∉ image
  extent : ∀ x, s.Fills x → ¬ l.Takes x

/-- one available entry has the segment's first byte and the last byte of memory, and the latter
belongs neither to an entry of another kind nor to the descriptor -/
structure LastByteFree (l : Located) (s : Elf.Segment) : Prop where
  available : ∃ e ∈ l.descriptor.memoryEntries,
    e.isAvailable = true ∧ e.Lists s.paddr.val ∧ e.Lists 0xFFFFFFFFFFFFFFFF
  unavailable : ∀ e ∈ l.descriptor.memoryEntries, e.isAvailable = false →
    ¬ e.Lists 0xFFFFFFFFFFFFFFFF
  extent : ¬ l.Takes 0xFFFFFFFFFFFFFFFF

end Located

/-! ## what is cut -/

namespace Elf.Segment

variable {s : Segment}

theorem fills_paddr (h : s.loadable = true) : s.Fills s.paddr.val := by
  obtain ⟨-, hsize⟩ := Bool.and_eq_true_iff.mp h
  have hpos : 0 < s.memsz.toNat := UInt64.lt_iff_toNat_lt.mp (decide_eq_true_iff.mp hsize)
  exact ⟨Nat.le_refl _, Nat.lt_add_of_pos_right hpos⟩

theorem bounds_of_contains {e : MemoryEntry} (h : e.range.contains s.range = true) :
    e.base.val ≤ s.paddr.val ∧ min s.stop 0xFFFFFFFFFFFFFFFF ≤ min e.stop 0xFFFFFFFFFFFFFFFF :=
  (Range.contains_iff ..).mp h

/-- a segment that was found apart from `n` bytes from `a` on is apart from all of them, if it does
not reach the last byte of memory, or that byte is not one of them -/
theorem not_of_fills {a : Address} {n : Nat} (h : s.range.overlaps (.span a n) = false)
    (hend : s.stop < 0x10000000000000000 ∨ s.stop = 0x10000000000000000
      ∧ ¬ (a.val ≤ 0xFFFFFFFFFFFFFFFF ∧ 0xFFFFFFFFFFFFFFFF < a.val + n))
    {x : Nat} (hx : s.Fills x) : ¬ (a.val ≤ x ∧ x < a.val + n) := by
  by_cases hlt : x < 0xFFFFFFFFFFFFFFFF
  · rw [← Range.mem_span_of_lt hlt]
    exact (Range.overlaps_eq_false_iff ..).mp h x ((Range.mem_span_of_lt hlt).mpr hx)
  · -- only the last byte itself was not looked at
    obtain ⟨-, hhi⟩ := hx
    have hlast : x = 0xFFFFFFFFFFFFFFFF ∧ s.stop = 0x10000000000000000 := by omega
    rcases hend with hlow | ⟨-, hnot⟩
    · omega
    · rw [hlast.1]
      exact hnot

end Elf.Segment

namespace Located

variable {l : Located} {image : Range} {s : Elf.Segment} {kernel : Elf.Header}

/-! ## one segment -/

theorem lastByteFree_of_fits (hload : s.loadable = true) (hstop : s.stop = 0x10000000000000000)
    (h : l.Fits image s) : l.LastByteFree s := by
  have hfirst := Elf.Segment.fills_paddr hload
  have hlast : s.Fills 0xFFFFFFFFFFFFFFFF := by
    have hp := s.paddr.isLt
    unfold Elf.Segment.Fills
    omega
  obtain ⟨e, he, havail, hin⟩ := h.available
  exact ⟨⟨e, he, havail, hin _ hfirst, hin _ hlast⟩,
    fun e he hkind => h.unavailable e he hkind _ hlast, h.extent _ hlast⟩

theorem available_of_contains {e : MemoryEntry} (he : e ∈ l.descriptor.memoryEntries)
    (havail : e.isAvailable = true) (hin : e.range.contains s.range = true)
    (hend : s.stop < 0x10000000000000000 ∨ s.stop = 0x10000000000000000 ∧ l.LastByteFree s) :
    ∃ e ∈ l.descriptor.memoryEntries, e.isAvailable = true ∧ ∀ x, s.Fills x → e.Lists x := by
  rcases hend with hlow | ⟨hstop, hfree⟩
  · obtain ⟨hlo, hhi⟩ := Elf.Segment.bounds_of_contains hin
    exact ⟨e, he, havail, fun x hx => ⟨Nat.le_trans hlo hx.1, by have := hx.2; omega⟩⟩
  · obtain ⟨e, he, havail, ⟨hlo, -⟩, -, hhi⟩ := hfree.available
    exact ⟨e, he, havail, fun x hx => ⟨Nat.le_trans hlo hx.1, by have := hx.2; omega⟩⟩

/-- **A segment that passes the check fits exactly if it ends in front of the last byte of memory, or
with it and that byte is free.** -/
theorem fits_iff (h : l.obstacle? image s.range = none) (hload : s.loadable = true) :
    l.Fits image s ↔ s.stop < 0x10000000000000000
      ∨ s.stop = 0x10000000000000000 ∧ l.LastByteFree s := by
  constructor
  · intro hfits
    rcases Nat.lt_or_eq_of_le hfits.inMemory with hlt | heq
    · exact .inl hlt
    · exact .inr ⟨heq, lastByteFree_of_fits hload heq hfits⟩
  · intro hend
    obtain ⟨hextent, hunavailable, himage, e, he, havail, hin⟩ := obstacle?_eq_none_iff.mp h
    refine ⟨by omega, available_of_contains he havail hin hend, fun e he hkind x => ?_,
      fun x hx hxi => ?_, fun x => ?_⟩
    · exact Elf.Segment.not_of_fills (hunavailable e he hkind)
        (hend.imp_right fun hlast => ⟨hlast.1, hlast.2.unavailable e he hkind⟩)
    · -- the image ends in front of the last byte, so the byte was looked at
      exact (Range.overlaps_eq_false_iff ..).mp himage x
        ((Range.mem_span_of_lt (Range.lt_top_of_mem hxi)).mpr hx) hxi
    · exact Elf.Segment.not_of_fills hextent
        (hend.imp_right fun hlast => ⟨hlast.1, hlast.2.extent⟩)

/-! ## kernels -/

/-- the last byte of memory and one behind it -/
def beyond : Elf.Header := ⟨.elf64, 0, [⟨Elf.loadKind, .top, 2, ⟨5⟩⟩]⟩

theorem validate_beyond {e : MemoryEntry} (he : e ∈ l.descriptor.memoryEntries)
    (havail : e.isAvailable = true) (hstop : 0xFFFFFFFFFFFFFFFF ≤ e.stop) :
    l.validate image beyond = .ok () := by
  have hempty : (Range.span .top 2).size = 0 := rfl
  rw [validate_eq_ok_iff]
  intro s hs
  obtain rfl : s = ⟨Elf.loadKind, .top, 2, ⟨5⟩⟩ := List.mem_singleton.mp hs
  refine obstacle?_eq_none_iff.mpr ⟨Range.not_overlaps_of_size_eq_zero hempty _,
    fun e _ _ => Range.not_overlaps_of_size_eq_zero hempty _,
    Range.not_overlaps_of_size_eq_zero hempty _, e, he, havail, ?_⟩
  rw [Range.contains_iff]
  have hbase := e.base.isLt
  constructor
  · show e.base.val ≤ 0xFFFFFFFFFFFFFFFF
    omega
  · show 0xFFFFFFFFFFFFFFFF ≤ min e.stop 0xFFFFFFFFFFFFFFFF
    omega

/-- **Of the kernels that pass the check, those fit whose segments end in front of the last byte of
memory, or with it where it is free; and all of them do exactly for the maps with no available entry
up to the last byte.** -/
theorem validate_fits_iff (l : Located) (image : Range) :
    (∀ kernel, l.validate image kernel = .ok () → ∀ s ∈ kernel.loadable,
      (l.Fits image s ↔ s.stop < 0x10000000000000000
        ∨ s.stop = 0x10000000000000000 ∧ l.LastByteFree s))
    ∧ ((∀ kernel, l.validate image kernel = .ok () → ∀ s ∈ kernel.loadable, l.Fits image s)
        ↔ ∀ e ∈ l.descriptor.memoryEntries, e.isAvailable = true → e.stop < 0xFFFFFFFFFFFFFFFF) := by
  have hsegment : ∀ kernel, l.validate image kernel = .ok () → ∀ s ∈ kernel.loadable,
      (l.Fits image s ↔ s.stop < 0x10000000000000000
        ∨ s.stop = 0x10000000000000000 ∧ l.LastByteFree s) := fun kernel hvalid s hs =>
    fits_iff ((validate_eq_ok_iff kernel).mp hvalid s hs) (List.mem_filter.mp hs).2
  refine ⟨hsegment, fun hall e he havail => ?_, fun hlow kernel hvalid s hs => ?_⟩
  · by_contra htop
    have hpass : l.validate image beyond = .ok () :=
      validate_beyond he havail (Nat.not_lt.mp htop)
    have hfits := hall beyond hpass _ (List.mem_singleton.mpr rfl)
    have hstop := hfits.inMemory
    revert hstop
    decide
  · obtain ⟨-, -, -, e, he, havail, hin⟩ :=
      obstacle?_eq_none_iff.mp ((validate_eq_ok_iff kernel).mp hvalid s hs)
    obtain ⟨-, hhi⟩ := Elf.Segment.bounds_of_contains hin
    have hend := hlow e he havail
    exact (hsegment kernel hvalid s hs).mpr (.inl (by omega))

/-- a map whose one entry is the last page of memory -/
def topPage : Descriptor :=
  ⟨List.flatMap Bytes.le32
    [56, 0, 6, 40, 24, 0, 0xFFFFF000, 0xFFFFFFFF, 0x1000, 0, 1, 0, 0, 8]⟩

theorem topPage_memoryEntries :
    topPage.memoryEntries = [⟨0xFFFFFFFFFFFFF000, 0x1000, .available⟩] := by
  decide +kernel

/-- a kernel with one segment, from the start of the last page of memory on -/
def fromTopPage (size : UInt64) : Elf.Header :=
  ⟨.elf64, 0, [⟨Elf.loadKind, .ofUInt64 0xFFFFFFFFFFFFF000, size, ⟨5⟩⟩]⟩

/-- a segment of one page fits there; but the entry reaches the last byte, so not all do that pass -/
theorem fromTopPage_fits :
    (∀ s ∈ (fromTopPage 0x1000).loadable, Fits ⟨0x9000, topPage⟩ (.span 0 0) s)
    ∧ ¬ ∀ kernel, validate ⟨0x9000, topPage⟩ (.span 0 0) kernel = .ok () →
      ∀ s ∈ kernel.loadable, Fits ⟨0x9000, topPage⟩ (.span 0 0) s := by
  obtain ⟨hsegment, hmap⟩ := validate_fits_iff ⟨0x9000, topPage⟩ (.span 0 0)
  have hpass : validate ⟨0x9000, topPage⟩ (.span 0 0) (fromTopPage 0x1000) = .ok () := by
    decide +kernel
  refine ⟨fun s hs => (hsegment _ hpass s hs).mpr (.inr ?_), fun hall => ?_⟩
  · obtain rfl := List.mem_singleton.mp hs
    refine ⟨by decide, ⟨_, by rw [topPage_memoryEntries]; exact List.mem_cons_self .., ?_⟩,
      fun e he hkind => ?_, by decide +kernel⟩
    · decide
    · rw [topPage_memoryEntries] at he
      obtain rfl := List.mem_singleton.mp he
      exact absurd hkind (by decide)
  · have hentry : ⟨0xFFFFFFFFFFFFF000, 0x1000, .available⟩ ∈ topPage.memoryEntries := by
      rw [topPage_memoryEntries]
      exact List.mem_cons_self ..
    exact absurd (hmap.mp hall _ hentry rfl) (by decide)

/-- with a segment of two pages a kernel passes, and the second page is behind the end of memory -/
theorem validate_passes_top :
    Descriptor.parse topPage.bytes = .ok topPage
    ∧ validate ⟨0x9000, topPage⟩ (.span 0 0) (fromTopPage 0x2000) = .ok ()
    ∧ ∃ s ∈ (fromTopPage 0x2000).loadable, s.Fills 0x10000000000000000
      ∧ (∀ e ∈ topPage.memoryEntries, ¬ e.Lists 0x10000000000000000)
      ∧ ¬ Fits ⟨0x9000, topPage⟩ (.span 0 0) s := by
  refine ⟨by decide +kernel, by decide +kernel, _, List.mem_singleton.mpr rfl, by decide, ?_, ?_⟩
  · rw [topPage_memoryEntries]
    decide
  · intro hfits
    exact absurd hfits.inMemory (by decide)

end Located

end ChainBoot
