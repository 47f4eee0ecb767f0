import ChainBoot.Proofs.Placement

/-!
# The verdict on a kernel

The check of a kernel goes through its segments and through the memory map several times for each,
and stops at the first thing that is wrong.  `Located.Sited` says of the bytes of a range, in no
order, that nothing is wrong with it.

* `obstacle?_eq_none_iff_sited`     one range passes exactly if it is sited;
* `validateRanges_eq_error_iff`     a refusal is about the first segment that is not sited, and
                                    `Blames` says what it reads;
* `validate_verdict`                both for a kernel, and what becomes of a refusal when the
                                    descriptor is moved: memory that is not available stays so, and
                                    a descriptor out of the way is not refused again.
-/

namespace ChainBoot

/-- every byte of the range is a byte of the entry; a range that was cut to nothing counts by where
it starts -/
structure MemoryEntry.Encloses (e : MemoryEntry) (r : Range) : Prop where
  bytes : ∀ x : Nat, x ∈ r → x ∈ e.range
  empty : (∀ x : Nat, x ∉ r) →
    e.range.start.val ≤ r.start.val ∧ r.start.val ≤ e.range.stop.val

theorem MemoryEntry.encloses_iff (e : MemoryEntry) (r : Range) :
    e.Encloses r ↔ e.range.contains r = true := by
  rw [Range.contains_iff_subset]
  exact ⟨fun h => ⟨h.bytes, h.empty⟩, fun h => ⟨h.1, h.2⟩⟩

namespace Located

variable {l : Located} {image r : Range} {err err' : PlacementError}

/-- no byte of the range belongs to the descriptor, to an entry of another kind than available, or
to the image, and one available entry has them all -/
structure Sited (l : Located) (image r : Range) : Prop where
  extent : ∀ x : Nat, x ∈ r → x ∉ l.extent
  unavailable : ∀ e ∈ l.descriptor.memoryEntries, e.isAvailable = false →
    ∀ x : Nat, x ∈ r → x ∉ e.range
  image : ∀ x : Nat, x ∈ r → x ∉ image
  inside : ∃ e ∈ l.descriptor.memoryEntries, e.isAvailable = true ∧ e.Encloses r

/-- what is said of a range that is not sited: that it overlaps the descriptor if it does, and
otherwise that it is outside of usable memory -/
inductive Blames (l : Located) (r : Range) : PlacementError → Prop
  | descriptorOverlap {x : Nat} : x ∈ r → x ∈ l.extent → Blames l r (.descriptorOverlap r l.extent)
  | outOfRam : (∀ x : Nat, x ∈ r → x ∉ l.extent) → Blames l r (.outOfRam r)

/-! ## one range -/

theorem obstacle?_eq_none_iff_sited : l.obstacle? image r = none ↔ l.Sited image r := by
  simp only [obstacle?_eq_none_iff, Range.overlaps_eq_false_iff, ← MemoryEntry.encloses_iff]
  exact ⟨fun ⟨hextent, hunavailable, himage, hinside⟩ => ⟨hextent, hunavailable, himage, hinside⟩,
    fun h => ⟨h.extent, h.unavailable, h.image, h.inside⟩⟩

theorem obstacle?_eq_descriptor_iff (l : Located) (image r : Range) :
    l.obstacle? image r = some .descriptor ↔ r.overlaps l.extent = true := by
  unfold obstacle?
  constructor
  · intro h
    split at h
    · assumption
    · repeat' split at h
      all_goals cases h
  · intro h
    rw [if_pos h]

theorem blames_verdict {o : Obstacle} (h : l.obstacle? image r = some o) :
    l.Blames r (l.verdict r o) := by
  have hnot : o ≠ .descriptor → ∀ x : Nat, x ∈ r → x ∉ l.extent := by
    intro hne
    rw [← Range.overlaps_eq_false_iff, ← Bool.not_eq_true, ← obstacle?_eq_descriptor_iff l image r, h,
      Option.some.injEq]
    exact hne
  cases o with
  | descriptor =>
    obtain ⟨x, hx, hxe⟩ := (Range.overlaps_iff ..).mp ((obstacle?_eq_descriptor_iff ..).mp h)
    exact .descriptorOverlap hx hxe
  | unavailable e => exact .outOfRam (hnot (by rintro ⟨⟩))
  | image => exact .outOfRam (hnot (by rintro ⟨⟩))
  | outside => exact .outOfRam (hnot (by rintro ⟨⟩))

theorem Blames.unique (h : l.Blames r err) (h' : l.Blames r err') : err = err' := by
  cases h with
  | descriptorOverlap hx hxe =>
    cases h' with
    | descriptorOverlap _ _ => rfl
    | outOfRam hout => exact absurd hxe (hout _ hx)
  | outOfRam hout =>
    cases h' with
    | descriptorOverlap hx hxe => exact absurd hxe (hout _ hx)
    | outOfRam _ => rfl

/-! ## the segments of a kernel -/

/-- **A refusal is about the first segment that is not sited.** -/
theorem validateRanges_eq_error_iff (ss : List Elf.Segment) :
    l.validateRanges image (ss.map Elf.Segment.range) = .error err ↔
      ∃ pre s post, ss = pre ++ s :: post ∧ (∀ t ∈ pre, l.Sited image t.range)
        ∧ ¬ l.Sited image s.range ∧ l.Blames s.range err := by
  induction ss with
  | nil =>
    constructor
    · intro h
      cases h
    · rintro ⟨pre, s, post, hsplit, -⟩
      exact absurd hsplit.symm (List.append_ne_nil_of_right_ne_nil _ (List.cons_ne_nil _ _))
  | cons q ss ih =>
    rw [List.map_cons, validateRanges]
    cases hq : l.obstacle? image q.range with
    | some o =>
      have hnot : ¬ l.Sited image q.range := by
        rw [← obstacle?_eq_none_iff_sited, hq]
        rintro ⟨⟩
      have hblames := blames_verdict hq
      dsimp only
      rw [Except.error.injEq]
      constructor
      · rintro rfl
        exact ⟨[], q, ss, rfl, fun t ht => absurd ht List.not_mem_nil, hnot, hblames⟩
      · rintro ⟨pre, s, post, hsplit, hpre, -, hs⟩
        cases pre with
        | nil =>
          obtain ⟨rfl, -⟩ := List.cons.inj hsplit
          exact hblames.unique hs
        | cons t pre =>
          obtain ⟨rfl, -⟩ := List.cons.inj hsplit
          exact absurd (hpre q (List.mem_cons_self ..)) hnot
    | none =>
      have hsited := obstacle?_eq_none_iff_sited.mp hq
      dsimp only
      rw [ih]
      constructor
      · rintro ⟨pre, s, post, rfl, hpre, hrest⟩
        exact ⟨q :: pre, s, post, rfl, List.forall_mem_cons.mpr ⟨hsited, hpre⟩, hrest⟩
      · rintro ⟨pre, s, post, hsplit, hpre, hnot, hs⟩
        cases pre with
        | nil =>
          obtain ⟨rfl, -⟩ := List.cons.inj hsplit
          exact absurd hsited hnot
        | cons t pre =>
          obtain ⟨rfl, rfl⟩ := List.cons.inj hsplit
          exact ⟨pre, s, post, rfl, (List.forall_mem_cons.mp hpre).2, hnot, hs⟩

theorem validate_eq_error_iff (kernel : Elf.Header) : l.validate image kernel = .error err ↔
    ∃ pre s post, kernel.loadable = pre ++ s :: post ∧ (∀ t ∈ pre, l.Sited image t.range)
      ∧ ¬ l.Sited image s.range ∧ l.Blames s.range err :=
  validateRanges_eq_error_iff kernel.loadable

theorem validate_eq_ok_iff_sited (kernel : Elf.Header) :
    l.validate image kernel = .ok () ↔ ∀ s ∈ kernel.loadable, l.Sited image s.range := by
  rw [validate_eq_ok_iff]
  exact forall₂_congr fun s _ => obstacle?_eq_none_iff_sited

/-! ## the descriptor elsewhere -/

theorem Sited.moved {l' : Located} (hd : l'.descriptor = l.descriptor) (h : l'.Sited image r)
    (hout : ∀ x : Nat, x ∈ r → x ∉ l.extent) : l.Sited image r where
  extent := hout
  unavailable := hd ▸ h.unavailable
  image := h.image
  inside := hd ▸ h.inside

/-- a segment outside of usable memory is so wherever the descriptor lies -/
theorem exists_error_of_outOfRam {kernel : Elf.Header}
    (h : l.validate image kernel = .error (.outOfRam r)) {l' : Located}
    (hd : l'.descriptor = l.descriptor) : ∃ err, l'.validate image kernel = .error err := by
  obtain ⟨pre, s, post, hsplit, -, hnot, hblames⟩ := (validate_eq_error_iff kernel).mp h
  cases hv : l'.validate image kernel with
  | error err => exact ⟨err, rfl⟩
  | ok u =>
    have hs : s ∈ kernel.loadable := by
      rw [hsplit]
      exact List.mem_append_right _ (List.mem_cons_self ..)
    cases hblames with
    | outOfRam hout =>
      exact absurd (((validate_eq_ok_iff_sited kernel).mp hv s hs).moved hd hout) hnot

theorem validate_ne_descriptorOverlap {kernel : Elf.Header}
    (hclear : ∀ s ∈ kernel.loadable, ∀ x : Nat, x ∈ s.range → x ∉ l.extent) (x : Range) :
    l.validate image kernel ≠ .error (.descriptorOverlap r x) := by
  intro h
  obtain ⟨pre, s, post, hsplit, -, -, hblames⟩ := (validate_eq_error_iff kernel).mp h
  have hs : s ∈ kernel.loadable := by
    rw [hsplit]
    exact List.mem_append_right _ (List.mem_cons_self ..)
  cases hblames with
  | descriptorOverlap hx hxe => exact hclear s hs _ hx hxe

/-- **A kernel passes exactly if all its segments are sited, and otherwise the first one that is not
is named.**  Where that one is outside of usable memory, no other place of the descriptor makes the
kernel pass; where it overlaps the descriptor, it does not at a place that no segment meets. -/
theorem validate_verdict (l : Located) (image : Range) (kernel : Elf.Header) :
    (l.validate image kernel = .ok () ↔ ∀ s ∈ kernel.loadable, l.Sited image s.range)
    ∧ (∀ err, l.validate image kernel = .error err ↔
        ∃ pre s post, kernel.loadable = pre ++ s :: post ∧ (∀ t ∈ pre, l.Sited image t.range)
          ∧ ¬ l.Sited image s.range ∧ l.Blames s.range err)
    ∧ (∀ r, l.validate image kernel = .error (.outOfRam r) → ∀ a : Address,
        ∃ err, Located.validate ⟨a, l.descriptor⟩ image kernel = .error err)
    ∧ ∀ r x, l.validate image kernel = .error (.descriptorOverlap r x) → ∀ a : Address,
        (∀ s ∈ kernel.loadable, ∀ y : Nat, y ∈ s.range → y ∉ Located.extent ⟨a, l.descriptor⟩) →
        ∀ r' x', Located.validate ⟨a, l.descriptor⟩ image kernel
          ≠ .error (.descriptorOverlap r' x') :=
  ⟨validate_eq_ok_iff_sited kernel, fun _ => validate_eq_error_iff kernel,
    fun _ h _ => exists_error_of_outOfRam h rfl,
    fun _ _ _ _ hclear _ x' => validate_ne_descriptorOverlap hclear x'⟩

/-- a map with the memory from `0x1000` up to `0x9000` available, and a page at `0x5000` reserved -/
def holed : Descriptor :=
  ⟨List.flatMap Bytes.le32 [80, 0, 6, 64, 24, 0, 0x1000, 0, 0x8000, 0, 1, 0,
    0x5000, 0, 0x1000, 0, 2, 0, 0, 8]⟩

/-- a kernel with segments of one page -/
def paged (starts : List Address) : Elf.Header :=
  ⟨.elf64, 0, starts.map fun a => ⟨Elf.loadKind, a, 0x1000, ⟨5⟩⟩⟩

/-- of two segments the second one meets the descriptor at `0x2000`, and none does at `0x8000`; the
reserved page is no place for a segment wherever the descriptor lies -/
theorem holed_verdict :
    (∃ pre s post, (paged [0x3000, 0x2000]).loadable = pre ++ s :: post
      ∧ (∀ t ∈ pre, Sited ⟨0x2000, holed⟩ (.span 0 0) t.range)
      ∧ ¬ Sited ⟨0x2000, holed⟩ (.span 0 0) s.range
      ∧ Blames ⟨0x2000, holed⟩ s.range (.descriptorOverlap (.span 0x2000 0x1000) (.span 0x2000 80)))
    ∧ (∀ s ∈ (paged [0x3000, 0x2000]).loadable, Sited ⟨0x8000, holed⟩ (.span 0 0) s.range)
    ∧ (∀ r x, validate ⟨0x8000, holed⟩ (.span 0 0) (paged [0x3000, 0x2000])
        ≠ .error (.descriptorOverlap r x))
    ∧ ∀ a : Address, ∃ err,
        validate ⟨a, holed⟩ (.span 0 0) (paged [0x3000, 0x5000]) = .error err := by
  have hmeet : validate ⟨0x2000, holed⟩ (.span 0 0) (paged [0x3000, 0x2000])
      = .error (.descriptorOverlap (.span 0x2000 0x1000) (.span 0x2000 80)) := by
    decide +kernel
  have hpass : validate ⟨0x8000, holed⟩ (.span 0 0) (paged [0x3000, 0x2000]) = .ok () := by
    decide +kernel
  have hhole : validate ⟨0x2000, holed⟩ (.span 0 0) (paged [0x3000, 0x5000])
      = .error (.outOfRam (.span 0x5000 0x1000)) := by
    decide +kernel
  have hclear := (validate_verdict ⟨0x8000, holed⟩ (.span 0 0) (paged [0x3000, 0x2000])).1.mp hpass
  obtain ⟨-, hfirst, -, hmoved⟩ :=
    validate_verdict ⟨0x2000, holed⟩ (.span 0 0) (paged [0x3000, 0x2000])
  obtain ⟨-, -, hfinal, -⟩ := validate_verdict ⟨0x2000, holed⟩ (.span 0 0) (paged [0x3000, 0x5000])
  exact ⟨(hfirst _).mp hmeet, hclear,
    hmoved _ _ hmeet 0x8000 fun s hs => (hclear s hs).extent, hfinal _ hhole⟩

end Located

end ChainBoot
