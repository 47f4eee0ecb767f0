import ChainBoot.Proofs.Kernel

/-!
# Placement of the kernel's segments

`Located.Placed` says that a range may be written while the descriptor and the modules are where
they are.  The placement of the segments is checked before modules are moved, from program headers
read at that time; it still holds at the hand-over, for the program headers as they then stand in
memory.

* `validate_eq_ok_iff`      what a successful check means;
* `prepare_placed`          every segment is placed when a kernel is handed over.
-/

namespace ChainBoot

/-! ## one check -/

theorem MemoryEntry.blocks_iff (e : MemoryEntry) (r : Range) :
    e.blocks r = true ↔ e.isAvailable = false ∧ r.overlaps e.range = true := by
  unfold blocks
  rw [Bool.and_eq_true, Bool.not_eq_true', Range.overlaps_comm r]

theorem MemoryEntry.holds_iff (e : MemoryEntry) (r : Range) :
    e.holds r = true ↔ e.isAvailable = true ∧ e.range.contains r = true := by
  unfold holds
  rw [Bool.and_eq_true]

namespace Located

variable {l : Located} {image r : Range}

/-- a range that meets neither the descriptor nor its modules nor the image, and lies in available
memory -/
structure Placed (l : Located) (image r : Range) : Prop where
  extent : r.overlaps l.extent = false
  modules : ∀ m ∈ l.descriptor.modules, r.overlaps m.2.range = false
  image : r.overlaps image = false
  unavailable : ∀ e ∈ l.descriptor.memoryEntries, e.isAvailable = false →
    r.overlaps e.range = false
  inside : ∃ e ∈ l.descriptor.memoryEntries, e.isAvailable = true ∧ e.range.contains r = true

theorem obstacle?_eq_none_iff : l.obstacle? image r = none ↔ r.overlaps l.extent = false
    ∧ (∀ e ∈ l.descriptor.memoryEntries, e.isAvailable = false → r.overlaps e.range = false)
    ∧ r.overlaps image = false
    ∧ ∃ e ∈ l.descriptor.memoryEntries, e.isAvailable = true ∧ e.range.contains r = true := by
  have hblocks : (l.descriptor.memoryEntries.find? fun e => e.blocks r) = none ↔
      ∀ e ∈ l.descriptor.memoryEntries, e.isAvailable = false → r.overlaps e.range = false := by
    rw [List.find?_eq_none]
    exact forall₂_congr fun e _ => by rw [e.blocks_iff, not_and, Bool.not_eq_true]
  have hholds : (l.descriptor.memoryEntries.any fun e => e.holds r) = true ↔
      ∃ e ∈ l.descriptor.memoryEntries, e.isAvailable = true ∧ e.range.contains r = true := by
    rw [List.any_eq_true]
    exact exists_congr fun e => and_congr_right fun _ => e.holds_iff r
  rw [← hblocks, ← hholds]
  unfold obstacle?
  cases r.overlaps l.extent with
  | true =>
    constructor
    · intro h
      cases h
    · rintro ⟨h, -⟩
      cases h
  | false =>
    rw [if_neg Bool.false_ne_true]
    cases l.descriptor.memoryEntries.find? fun e => e.blocks r with
    | some e =>
      constructor
      · intro h
        cases h
      · rintro ⟨-, h, -⟩
        cases h
    | none =>
      dsimp only
      cases r.overlaps image with
      | true =>
        constructor
        · intro h
          cases h
        · rintro ⟨-, -, h, -⟩
          cases h
      | false =>
        rw [if_neg Bool.false_ne_true]
        cases l.descriptor.memoryEntries.any fun e => e.holds r with
        | true => exact ⟨fun _ => ⟨rfl, rfl, rfl, rfl⟩, fun _ => rfl⟩
        | false =>
          constructor
          · intro h
            cases h
          · rintro ⟨-, -, -, h⟩
            cases h

theorem validateRanges_eq_ok_iff (rs : List Range) :
    l.validateRanges image rs = .ok () ↔ ∀ r ∈ rs, l.obstacle? image r = none := by
  induction rs with
  | nil => exact ⟨fun _ r hr => absurd hr List.not_mem_nil, fun _ => rfl⟩
  | cons r rs ih =>
    rw [validateRanges, List.forall_mem_cons, ← ih]
    cases l.obstacle? image r with
    | none => exact ⟨fun h => ⟨rfl, h⟩, fun h => h.2⟩
    | some o =>
      constructor
      · intro h
        cases h
      · rintro ⟨h, -⟩
        cases h

theorem validate_eq_ok_iff (kernel : Elf.Header) : l.validate image kernel = .ok () ↔
    ∀ s ∈ kernel.loadable, l.obstacle? image s.range = none := by
  unfold validate
  rw [validateRanges_eq_ok_iff, List.forall_mem_map]

/-- a check looks at the extent of the descriptor and at the memory map -/
theorem validate_congr {l' : Located} (hext : l'.extent = l.extent)
    (hmap : l'.descriptor.memoryEntries = l.descriptor.memoryEntries) {kernel : Elf.Header}
    (h : l.validate image kernel = .ok ()) : l'.validate image kernel = .ok () := by
  rw [validate_eq_ok_iff] at h ⊢
  intro s hs
  rw [obstacle?_eq_none_iff, hext, hmap]
  exact obstacle?_eq_none_iff.mp (h s hs)

end Located

/-! ## whole runs -/

namespace Loader

variable {l l' : Loader} {d d' : Descriptor} {k : Nat × BootModule} {ho : HandOff}

theorem placementVerdict_spec (h : l.Collected d)
    (hverdict : l.placementVerdict = .ok .relocatingModules) :
    ∃ kernel, l.kernelImage = .ok kernel ∧ (l.place d).validate l.image kernel = .ok () := by
  unfold placementVerdict at hverdict
  split at hverdict
  · cases hverdict
  · rename_i kernel hkernel
    rw [h.located_eq] at hverdict
    dsimp only at hverdict
    split at hverdict
    · rename_i hvalid
      exact ⟨kernel, hkernel, hvalid⟩
    · cases hverdict
    · cases hverdict

end Loader

theorem ModuleTable.conflict?_consume {ms : List (Nat × BootModule)} {segments : List Elf.Segment}
    (h : (ofModules ms).conflict? segments = none) :
    ((ofModules ms).update 0 fun r => { r with state := .consumed }).conflict? segments = none := by
  unfold conflict? at h ⊢
  rw [Option.map_eq_none_iff, List.find?_eq_none] at h ⊢
  intro r hr htest
  obtain ⟨i, hi⟩ := List.getElem?_of_mem hr
  have hrec : ((ofModules ms).update 0 fun r => { r with state := .consumed }).get? i = some r := hi
  rw [get?_consume, Option.map_eq_some_iff] at hrec
  obtain ⟨p, hp, rfl⟩ := hrec
  by_cases hi0 : i = 0
  · rw [if_pos hi0] at htest
    cases htest
  · rw [if_neg hi0] at htest
    have hold : (ofModules ms).get? i = some (.ofModule i p) := by
      rw [get?_ofModules, hp]
      rfl
    exact h _ (List.mem_of_getElem? hold) htest

namespace Loader

/-- **Every segment of the kernel may be loaded when the kernel is handed over.** -/
theorem prepare_placed {l l' : Loader} {a : Address} {ho : HandOff} (hm : l.memory.Disjoint)
    (hka : KernelApart l.memory a) (h : l.prepare a = (l', .ok ho)) :
    ∃ d k image kernel d', descriptorAt l.memory a = .ok d ∧ d.modules[0]? = some k
      ∧ l'.memory.read k.2.range = .ok image ∧ Elf.Header.parse image = .ok kernel
      ∧ descriptorAt l'.memory ho.descriptor = .ok d'
      ∧ (∀ s ∈ kernel.loadable, Located.Placed ⟨ho.descriptor, d'⟩ l.image s.range)
      ∧ Located.validate ⟨ho.descriptor, d'⟩ l.image kernel = .ok ()
      ∧ l'.modules.conflict? kernel.segments = none := by
  obtain ⟨d, l₁, d₁, l₂, l₃, d₃, k, d', hlisted, hdesc, hverdict, hmods, hplan, hfinal⟩ :=
    prepare_ok hm h
  have hl₂ := hdesc.collected hlisted.collected
  have hl₃ := hmods.collected hl₂
  obtain ⟨kernel, hkernel, hvalid⟩ := placementVerdict_spec hl₂ hverdict
  obtain ⟨hk, hsame, -, hend⟩ := kernel_at_end hm hka hlisted hdesc hmods hfinal
  rw [← hsame] at hkernel
  obtain ⟨image, hread, hparse⟩ := hend kernel hkernel
  -- what the check looked at is as it was
  have hext : Located.extent ⟨ho.descriptor, d'⟩ = (l₂.place d₁).extent := by
    show extentAt ho.descriptor d' = extentAt l₂.descriptor d₁
    rw [hfinal.extent, hmods.descriptor, extentAt_congr hmods.follows.size]
  have hmap : d'.memoryEntries = d₁.memoryEntries := by
    rw [hfinal.memoryEntries, hmods.follows.memoryEntries]
  have himage : l₂.image = l.image := by
    rw [hdesc.image, hlisted.state]
    rfl
  rw [himage] at hvalid
  have hvalid' : Located.validate ⟨ho.descriptor, d'⟩ l.image kernel = .ok () :=
    Located.validate_congr hext hmap hvalid
  obtain ⟨kernel', hkernel', hconflict⟩ := planModuleMove_none hplan
  rw [hkernel, Except.ok.injEq] at hkernel'
  subst hkernel'
  rw [hl₃.table] at hconflict
  refine ⟨d, k, image, kernel, d', hlisted.incoming, hk, hread, hparse, hfinal.stored,
    fun s hs => ?_, hvalid', ?_⟩
  · obtain ⟨hextent, hunavailable, himage, hinside⟩ :=
      Located.obstacle?_eq_none_iff.mp ((Located.validate_eq_ok_iff kernel).mp hvalid' s hs)
    refine ⟨hextent, fun m hm => ?_, himage, hunavailable, hinside⟩
    obtain ⟨hmem, hload⟩ := List.mem_filter.mp hs
    have hm' : m ∈ d₃.modules.tail := by
      rw [← hfinal.edited.modules]
      exact hm
    obtain ⟨i, hi⟩ := List.getElem?_of_mem hm'
    rw [List.getElem?_tail] at hi
    exact (ModuleTable.conflict?_eq_none_iff _ _).mp hconflict (i + 1) m hi (Nat.succ_ne_zero i) s
      hmem hload
  · rw [hfinal.table]
    exact ModuleTable.conflict?_consume hconflict

theorem sample_placed : (sample 0x2000).memory.Disjoint ∧ KernelApart (sample 0x2000).memory 0x2000
    ∧ ∃ l' k image kernel d',
      (sample 0x2000).prepare 0x2000 = (l', .ok ⟨0x7000, 0x100, bootMagic, 0x5000⟩)
      ∧ l'.memory.read (BootModule.range k) = .ok image ∧ Elf.Header.parse image = .ok kernel
      ∧ descriptorAt l'.memory 0x7000 = .ok d'
      ∧ (∀ s ∈ kernel.loadable, Located.Placed ⟨0x7000, d'⟩ (.span .zero 0) s.range)
      ∧ Located.validate ⟨0x7000, d'⟩ (.span .zero 0) kernel = .ok ()
      ∧ l'.modules.conflict? kernel.segments = none := by
  obtain ⟨l', h⟩ := sample_prepare
  obtain ⟨-, k, image, kernel, d', -, -, hread, hparse, hd', hplaced, hvalid, hconflict⟩ :=
    prepare_placed sample_disjoint sample_apart h
  exact ⟨sample_disjoint, sample_apart, l', k.2, image, kernel, d', h, hread, hparse, hd', hplaced,
    hvalid, hconflict⟩

end Loader

end ChainBoot
