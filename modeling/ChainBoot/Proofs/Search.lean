import ChainBoot.Search
import ChainBoot.Proofs.Range

/-!
# What a search returns

`Located.Free` says that a place is fit to be written: it starts on a page, ends below the
ceiling, lies in one available entry of the memory map, and touches nothing that is reserved.

* `candidate?_spec`               the candidate of an entry, byte by byte;
* `candidate?_of_left`            when an entry has one;
* `findRegion_mem`                the place found is the anchor or the start of a candidate;
* `anchor_le_of_mem_candidates`   the highest place is not below the anchor of a candidate;
* `mem_reservedRanges_iff`        the ranges that a search keeps away from;
* `free_of_findRegion`            every place found is free.
-/

namespace ChainBoot

/-- `needed` bytes from `a` on are free below the ceiling -/
structure Located.Free (l : Located) (image : Range) (needed : Nat) (ceiling a : Address) : Prop where
  aligned : pageSize ∣ a.val
  below : a.val + needed ≤ ceiling.val
  available : ∃ e ∈ l.descriptor.memoryEntries,
    e.isAvailable = true ∧ e.range.contains (.span a needed) = true
  clear : ∀ r ∈ l.reservedRanges image, (Range.span a needed).overlaps r = false

/-! ## candidates -/

/-- a page-aligned range inside the entry and below the ceiling, without a reserved byte -/
structure MemoryEntry.Candidate (e : MemoryEntry) (needed : Nat) (ceiling : Address)
    (reserved : List Range) (r : Range) : Prop where
  aligned : pageSize ∣ r.start.val
  room : needed ≤ r.size
  nonempty : r.start.val < r.stop.val
  inside : e.range.contains r = true
  below : r.stop.val ≤ ceiling.val
  clear : ∀ o ∈ reserved, r.overlaps o = false

theorem MemoryEntry.mem_of_mem_pagesBelow? {e : MemoryEntry} {ceiling : Address} {r : Range}
    (h : e.pagesBelow? ceiling = some r) {x : Nat} (hx : x ∈ r) : x ∈ e.range ∧ x < ceiling.val := by
  unfold pagesBelow? at h
  split at h
  · cases h
  · rename_i start hstart
    obtain ⟨-, hle, -, -⟩ := (Address.alignUp?_eq_some_iff ..).mp hstart
    split at h
    · cases h
      obtain ⟨hb, hc⟩ := (Range.mem_below ..).mp hx
      rw [Range.mem_between] at hb
      refine ⟨?_, hc⟩
      rw [Range.mem_iff]
      omega
    · cases h

/-- every byte of the free part of an entry is available, below the ceiling and not reserved -/
theorem MemoryEntry.free?_spec {e : MemoryEntry} {ceiling : Address} {reserved : List Range}
    {r : Range} (h : e.free? ceiling reserved = some r) :
    pageSize ∣ r.start.val ∧
      ∀ x : Nat, x ∈ r → x ∈ e.range ∧ x < ceiling.val ∧ ∀ o ∈ reserved, x ∉ o := by
  unfold free? at h
  split at h
  · cases h
  · rename_i pages hpages
    obtain ⟨start, hstart, rfl⟩ := Option.map_eq_some_iff.mp h
    obtain ⟨hdvd, hle, -, -⟩ := (Address.alignUp?_eq_some_iff ..).mp hstart
    refine ⟨by rw [Range.start_between]; exact hdvd, fun x hx => ?_⟩
    rw [Range.mem_between] at hx
    have hleft : x ∈ pages.excludeAll reserved := by
      rw [Range.mem_iff]
      omega
    obtain ⟨hp, hout⟩ := Range.mem_of_mem_excludeAll hleft
    obtain ⟨he, hc⟩ := mem_of_mem_pagesBelow? hpages hp
    exact ⟨he, hc, hout⟩

theorem MemoryEntry.candidate?_spec {e : MemoryEntry} {needed : Nat} {ceiling : Address}
    {reserved : List Range} {r : Range} (h : e.candidate? needed ceiling reserved = some r) :
    e.Candidate needed ceiling reserved r := by
  obtain ⟨hfree, hfit⟩ := Option.filter_eq_some_iff.mp h
  obtain ⟨haligned, hbytes⟩ := free?_spec hfree
  rw [Bool.and_eq_true, decide_eq_true_iff, Bool.not_eq_true'] at hfit
  obtain ⟨hne, hroom⟩ := hfit
  have hle : r.start.val ≤ r.stop.val := r.start_le_stop
  have hsize : r.size ≠ 0 := fun h0 => by
    rw [(Range.isEmpty_iff r).mpr h0] at hne
    cases hne
  have hlt : r.start.val < r.stop.val := by
    unfold Range.size at hsize
    omega
  -- the bounds follow from the first and the last byte
  obtain ⟨hfirst, -, -⟩ := hbytes r.start.val ((Range.mem_iff ..).mpr ⟨Nat.le_refl _, hlt⟩)
  obtain ⟨hlast, hbelow, -⟩ := hbytes (r.stop.val - 1) ((Range.mem_iff ..).mpr (by omega))
  rw [Range.mem_iff] at hfirst hlast
  refine ⟨haligned, hroom, hlt, (Range.contains_iff ..).mpr (by omega), by omega, fun o ho => ?_⟩
  exact (Range.overlaps_eq_false_iff r o).mpr fun x hx => (hbytes x hx).2.2 o ho

theorem MemoryEntry.candidate?_of_left {e : MemoryEntry} {needed : Nat} {ceiling a : Address}
    {reserved : List Range} {r : Range} (hpages : e.pagesBelow? ceiling = some r)
    (halign : (r.excludeAll reserved).start.alignUp? = some a) (hneeded : 0 < needed)
    (hroom : a.val + needed ≤ (r.excludeAll reserved).stop.val) :
    e.candidate? needed ceiling reserved = some (.between a (r.excludeAll reserved).stop) := by
  have hsize : (Range.between a (r.excludeAll reserved).stop).size
      = (r.excludeAll reserved).stop.val - a.val := by
    rw [Range.size, Range.stop_between, Range.start_between]
    omega
  apply Option.filter_eq_some_iff.mpr
  constructor
  · unfold free?
    rw [hpages]
    dsimp only
    rw [halign, Option.map_some]
  · rw [Bool.and_eq_true, decide_eq_true_iff, Bool.not_eq_true', Bool.eq_false_iff, ne_eq,
      Range.isEmpty_iff]
    omega

theorem Located.free_of_candidate {l : Located} {image : Range} {needed : Nat} {ceiling a : Address}
    {e : MemoryEntry} {r : Range} (he : e ∈ l.descriptor.memoryEntries)
    (havail : e.isAvailable = true) (hr : e.Candidate needed ceiling (l.reservedRanges image) r)
    (haligned : pageSize ∣ a.val) (hle : r.start.val ≤ a.val)
    (hend : a.val + needed ≤ r.stop.val) : l.Free image needed ceiling a := by
  have hin := (Range.contains_iff ..).mp hr.inside
  have hbelow := hr.below
  have htop := r.stop.isLt
  have hstop : (Range.span a needed).stop.val = a.val + needed := Range.stop_span_of_le (by omega)
  refine ⟨haligned, by omega, ⟨e, he, havail, ?_⟩, fun o ho => ?_⟩
  · rw [Range.contains_iff, hstop, Range.start_span]
    omega
  · refine Range.not_overlaps_of_subset (fun x hx => ?_) (hr.clear o ho)
    rw [Range.mem_iff, hstop, Range.start_span] at hx
    rw [Range.mem_iff]
    omega

/-- the anchor of a range with enough room and an aligned start lies in it -/
theorem Range.anchor_spec {r : Range} {needed : Nat} (haligned : pageSize ∣ r.start.val)
    (hroom : needed ≤ r.size) :
    pageSize ∣ (r.anchor needed).val ∧ r.start.val ≤ (r.anchor needed).val
      ∧ (r.anchor needed).val + needed ≤ r.stop.val := by
  have hle : r.start.val ≤ r.stop.val := r.start_le_stop
  unfold Range.size at hroom
  have hdown : (r.anchor needed).val ≤ r.stop.val - needed := Address.alignDown_le _
  have hnear : r.stop.val - needed < (r.anchor needed).val + pageSize :=
    Address.lt_alignDown_add ⟨r.stop.val - needed, by omega⟩
  have hdvd : pageSize ∣ (r.anchor needed).val := Address.dvd_alignDown _
  refine ⟨hdvd, ?_, by omega⟩
  obtain ⟨i, hi⟩ := haligned
  obtain ⟨j, hj⟩ := hdvd
  unfold pageSize at hi hj hnear
  omega

/-! ## the best candidate -/

namespace Located

theorem better_spec (best : Option Address) (b : Address) :
    ∃ g, better best b = some g ∧ b ≤ g ∧ (∀ c, best = some c → c ≤ g)
      ∧ (g = b ∨ best = some g) := by
  cases best with
  | none =>
    have hb : b ≤ b := Nat.le_refl _
    refine ⟨b, rfl, hb, fun c hc => ?_, .inl rfl⟩
    cases hc
  | some c =>
    by_cases hlt : c < b
    · refine ⟨b, if_pos hlt, Nat.le_refl b.val, fun e he => ?_, .inl rfl⟩
      cases he
      exact Nat.le_of_lt hlt
    · refine ⟨c, if_neg hlt, Nat.le_of_not_lt hlt, fun e he => ?_, .inr rfl⟩
      cases he
      exact Nat.le_refl _

theorem foldl_better_spec {as : List Address} {best : Option Address} {a : Address}
    (h : as.foldl better best = some a) :
    (best = some a ∨ a ∈ as) ∧ (∀ b ∈ as, b ≤ a) ∧ ∀ c, best = some c → c ≤ a := by
  induction as generalizing best with
  | nil =>
    refine ⟨.inl h, fun b hb => absurd hb List.not_mem_nil, fun c hc => ?_⟩
    rw [List.foldl_nil, hc] at h
    cases h
    exact Nat.le_refl _
  | cons b bs ih =>
    obtain ⟨g, hg, hb, hprev, hfrom⟩ := better_spec best b
    rw [List.foldl_cons, hg] at h
    obtain ⟨hbest, hle, hga⟩ := ih h
    have hga : g ≤ a := hga g rfl
    refine ⟨?_, List.forall_mem_cons.mpr ⟨Nat.le_trans hb hga, hle⟩,
      fun c hc => Nat.le_trans (hprev c hc) hga⟩
    rcases hbest with he | hmem
    · cases he
      rcases hfrom with rfl | hbest
      · exact .inr (List.mem_cons_self ..)
      · exact .inl hbest
    · exact .inr (List.mem_cons_of_mem _ hmem)

theorem greatest?_spec {as : List Address} {a : Address} (h : greatest? as = some a) :
    a ∈ as ∧ ∀ b ∈ as, b ≤ a := by
  obtain ⟨h0 | hmem, hle, -⟩ := foldl_better_spec h
  · cases h0
  · exact ⟨hmem, hle⟩

theorem exists_foldl_better (as : List Address) (b : Address) :
    ∃ a, as.foldl better (some b) = some a := by
  induction as generalizing b with
  | nil => exact ⟨b, rfl⟩
  | cons c cs ih =>
    obtain ⟨g, hg, -⟩ := better_spec (some b) c
    rw [List.foldl_cons, hg]
    exact ih g

theorem exists_greatest? {as : List Address} {b : Address} (h : b ∈ as) :
    ∃ a, greatest? as = some a := by
  cases as with
  | nil => cases h
  | cons c cs => exact exists_foldl_better cs c

theorem mem_candidates_iff {l : Located} {image : Range} {needed : Nat} {ceiling : Address} {r : Range} :
    r ∈ l.candidates image needed ceiling ↔ ∃ e ∈ l.descriptor.memoryEntries,
      e.isAvailable = true ∧ e.candidate? needed ceiling (l.reservedRanges image) = some r := by
  constructor
  · intro h
    obtain ⟨e, he, hr⟩ := List.mem_filterMap.mp h
    obtain ⟨hmem, havail⟩ := List.mem_filter.mp he
    exact ⟨e, hmem, havail, hr⟩
  · rintro ⟨e, hmem, havail, hr⟩
    exact List.mem_filterMap.mpr ⟨e, List.mem_filter.mpr ⟨hmem, havail⟩, hr⟩

theorem mem_candidates {l : Located} {image : Range} {needed : Nat} {ceiling : Address} {r : Range}
    (h : r ∈ l.candidates image needed ceiling) :
    ∃ e ∈ l.descriptor.memoryEntries, e.isAvailable = true
      ∧ e.Candidate needed ceiling (l.reservedRanges image) r := by
  obtain ⟨e, hmem, havail, hr⟩ := mem_candidates_iff.mp h
  exact ⟨e, hmem, havail, MemoryEntry.candidate?_spec hr⟩

theorem anchor_le_of_mem_candidates {l : Located} {image : Range} {needed : Nat} {ceiling : Address}
    {r : Range} (h : r ∈ l.candidates image needed ceiling) :
    ∃ a, l.findRegion image needed .highest ceiling = some a ∧ r.anchor needed ≤ a := by
  have hanchor : r.anchor needed ∈ (l.candidates image needed ceiling).map (·.anchor needed) :=
    List.mem_map_of_mem h
  obtain ⟨a, ha⟩ := exists_greatest? hanchor
  exact ⟨a, ha, (greatest?_spec ha).2 _ hanchor⟩

theorem findRegion_mem {l : Located} {image : Range} {needed : Nat} {fit : Fit}
    {ceiling a : Address} (h : l.findRegion image needed fit ceiling = some a) :
    ∃ r ∈ l.candidates image needed ceiling, a = r.start ∨ a = r.anchor needed := by
  unfold findRegion at h
  cases fit with
  | lowest =>
    obtain ⟨r, hr, rfl⟩ := Option.map_eq_some_iff.mp h
    exact ⟨r, List.mem_of_mem_head? hr, .inl rfl⟩
  | highest =>
    obtain ⟨r, hr, rfl⟩ := List.mem_map.mp (greatest?_spec h).1
    exact ⟨r, hr, .inr rfl⟩

/-- **Every place that a search finds is free.** -/
theorem free_of_findRegion {l : Located} {image : Range} {needed : Nat} {fit : Fit}
    {ceiling a : Address} (h : l.findRegion image needed fit ceiling = some a) :
    l.Free image needed ceiling a := by
  obtain ⟨r, hr, ha⟩ := findRegion_mem h
  obtain ⟨e, he, havail, hcand⟩ := mem_candidates hr
  have hroom := hcand.room
  have hle : r.start.val ≤ r.stop.val := r.start_le_stop
  rcases ha with rfl | rfl
  · unfold Range.size at hroom
    exact free_of_candidate he havail hcand hcand.aligned (Nat.le_refl _) (by omega)
  · obtain ⟨hdvd, hlo, hhi⟩ := Range.anchor_spec hcand.aligned hroom
    exact free_of_candidate he havail hcand hdvd hlo hhi

/-! ## what is reserved -/

theorem reservedRanges_eq (l : Located) (image : Range) : l.reservedRanges image
    = [image, l.extent] ++ l.descriptor.framebuffers.map Framebuffer.extent
      ++ l.descriptor.modules.map fun m => m.2.range := by
  unfold reservedRanges reserved
  rw [List.map_append, List.map_append, List.map_map, List.map_map]
  rfl

theorem mem_reservedRanges_iff (l : Located) (image r : Range) : r ∈ l.reservedRanges image ↔
    r = image ∨ r = l.extent ∨ (∃ f ∈ l.descriptor.framebuffers, f.extent = r)
      ∨ ∃ m ∈ l.descriptor.modules, m.2.range = r := by
  rw [reservedRanges_eq, List.mem_append, List.mem_append, List.mem_map, List.mem_map,
    List.mem_cons, List.mem_singleton, or_assoc, or_assoc]

namespace Free

variable {l : Located} {image : Range} {needed : Nat} {ceiling a : Address}

/-- a free place does not reach the last address, so its range is not cut -/
theorem le_top (h : l.Free image needed ceiling a) : a.val + needed ≤ 0xFFFFFFFFFFFFFFFF := by
  have hb := h.below
  have hc := ceiling.isLt
  omega

theorem clear_image (h : l.Free image needed ceiling a) :
    (Range.span a needed).overlaps image = false :=
  h.clear image ((mem_reservedRanges_iff ..).mpr (.inl rfl))

theorem clear_extent (h : l.Free image needed ceiling a) :
    (Range.span a needed).overlaps l.extent = false :=
  h.clear l.extent ((mem_reservedRanges_iff ..).mpr (.inr (.inl rfl)))

theorem clear_framebuffer (h : l.Free image needed ceiling a) {f : Framebuffer}
    (hf : f ∈ l.descriptor.framebuffers) : (Range.span a needed).overlaps f.extent = false :=
  h.clear f.extent ((mem_reservedRanges_iff ..).mpr (.inr (.inr (.inl ⟨f, hf, rfl⟩))))

theorem clear_module (h : l.Free image needed ceiling a) {m : Nat × BootModule}
    (hm : m ∈ l.descriptor.modules) : (Range.span a needed).overlaps m.2.range = false :=
  h.clear m.2.range ((mem_reservedRanges_iff ..).mpr (.inr (.inr (.inr ⟨m, hm, rfl⟩))))

end Free

end Located

end ChainBoot
