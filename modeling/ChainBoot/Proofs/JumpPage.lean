import ChainBoot.Proofs.Kernel

/-!
# The page for the jump code

The page is found by a search that keeps away from the loader's image, the descriptor, the
framebuffers, the kernel's image and all other modules, and from nothing else: the memory that the
kernel's segments will be loaded to is not reserved.

* `Located.jumpStretches`   what such a search leaves of the available memory, computed from the
                            descriptor handed over;
* `Located.JumpClear`       no segment meets the highest page of these stretches;
* `prepare_jumpPage`        the page found is free of all that is reserved, and of the segments
                            exactly under this condition.
-/

namespace ChainBoot

namespace Located

/-- what the jump code keeps away from, when the descriptor does not list the kernel any more -/
def jumpReserved (l : Located) (image kernel : Range) : List Range :=
  [image, l.extent] ++ l.descriptor.framebuffers.map Framebuffer.extent
    ++ kernel :: l.descriptor.modules.map fun m => m.2.range

/-- the stretches of available memory below the ceiling that these ranges leave, and that hold a
page -/
def jumpStretches (l : Located) (image kernel : Range) (ceiling : Address) : List Range :=
  (l.descriptor.memoryEntries.filter MemoryEntry.isAvailable).filterMap fun e =>
    e.candidate? jumpCodeSize ceiling (l.jumpReserved image kernel)

/-- the last page of a stretch -/
def lastPage (r : Range) : Range := .span (r.anchor jumpCodeSize) jumpCodeSize

/-- of all stretches, the one that reaches highest has a last page that no segment meets -/
def JumpClear (l : Located) (image kernel : Range) (ceiling : Address) (segments : List Elf.Segment) :
    Prop :=
  ∀ r ∈ l.jumpStretches image kernel ceiling,
    (∀ q ∈ l.jumpStretches image kernel ceiling, q.anchor jumpCodeSize ≤ r.anchor jumpCodeSize) →
    ∀ s ∈ segments, (lastPage r).overlaps s.range = false

end Located

namespace Loader

variable {l l' : Loader} {d d' : Descriptor} {k : Nat × BootModule} {ho : HandOff}

theorem Finalized.modules (h : l.Finalized d k l' d' ho) : d.modules = k :: d'.modules := by
  have hk := h.listed
  rw [h.edited.modules]
  cases hms : d.modules with
  | nil =>
    rw [hms] at hk
    cases hk
  | cons m ms =>
    rw [hms] at hk
    cases hk
    rfl

/-- the page is the last one of the stretch that reaches highest, also seen from the descriptor
handed over -/
theorem Finalized.jumpCode (h : l.Finalized d k l' d' ho) :
    ∃ r ∈ Located.jumpStretches ⟨ho.descriptor, d'⟩ l.image k.2.range l'.ceiling,
      ho.jumpCode = r.anchor jumpCodeSize
        ∧ ∀ q ∈ Located.jumpStretches ⟨ho.descriptor, d'⟩ l.image k.2.range l'.ceiling,
            q.anchor jumpCodeSize ≤ ho.jumpCode := by
  have hceiling : l'.ceiling = l.ceiling := by rw [h.state]
  have hext : Located.extent ⟨ho.descriptor, d'⟩ = (l.place d).extent := h.extent
  have hreserved : Located.jumpReserved ⟨ho.descriptor, d'⟩ l.image k.2.range
      = (l.place d).reservedRanges l.image := by
    unfold Located.jumpReserved
    rw [Located.reservedRanges_eq, hext]
    show _ ++ d'.framebuffers.map Framebuffer.extent ++ _
      = _ ++ d.framebuffers.map Framebuffer.extent ++ d.modules.map _
    rw [h.edited.framebuffers, h.modules, List.map_cons]
  have hstretches : Located.jumpStretches ⟨ho.descriptor, d'⟩ l.image k.2.range l'.ceiling
      = (l.place d).candidates l.image jumpCodeSize l.ceiling := by
    unfold Located.jumpStretches Located.candidates
    rw [hreserved, hceiling]
    show (d'.memoryEntries.filter MemoryEntry.isAvailable).filterMap _ = _
    rw [h.memoryEntries]
    rfl
  obtain ⟨hmem, hmax⟩ := Located.greatest?_spec h.found
  rw [hstretches]
  obtain ⟨r, hr, hanchor⟩ := List.mem_map.mp hmem
  exact ⟨r, hr, hanchor.symm, fun q hq => hmax _ (List.mem_map_of_mem hq)⟩

/-- **The page for the jump code is free of all that is reserved, and of the kernel's segments
exactly where none of them meets the highest such page.** -/
theorem prepare_jumpPage {l l' : Loader} {a : Address} {ho : HandOff} (hm : l.memory.Disjoint)
    (hka : KernelApart l.memory a) (h : l.prepare a = (l', .ok ho)) :
    ∃ d k image kernel d', descriptorAt l.memory a = .ok d ∧ d.modules[0]? = some k
      ∧ l'.memory.read k.2.range = .ok image ∧ Elf.Header.parse image = .ok kernel
      ∧ descriptorAt l'.memory ho.descriptor = .ok d'
      ∧ (Range.span ho.jumpCode jumpCodeSize).overlaps (extentAt ho.descriptor d') = false
      ∧ (Range.span ho.jumpCode jumpCodeSize).overlaps k.2.range = false
      ∧ (∀ m ∈ d'.modules, (Range.span ho.jumpCode jumpCodeSize).overlaps m.2.range = false)
      ∧ (∀ f ∈ d'.framebuffers, (Range.span ho.jumpCode jumpCodeSize).overlaps f.extent = false)
      ∧ (Range.span ho.jumpCode jumpCodeSize).overlaps l.image = false
      ∧ ((∀ s ∈ kernel.loadable, (Range.span ho.jumpCode jumpCodeSize).overlaps s.range = false) ↔
          Located.JumpClear ⟨ho.descriptor, d'⟩ l.image k.2.range l'.ceiling kernel.loadable) := by
  obtain ⟨d, l₁, d₁, l₂, l₃, d₃, k, d', hlisted, hdesc, hverdict, hmods, hplan, hfinal⟩ :=
    prepare_ok hm h
  obtain ⟨hk, -, -, hend⟩ := kernel_at_end hm hka hlisted hdesc hmods hfinal
  obtain ⟨kernel, hkernel, -⟩ := planModuleMove_none hplan
  obtain ⟨image, hread, hparse⟩ := hend kernel hkernel
  have himage : l₃.image = l.image := by
    rw [hmods.image, hdesc.image, hlisted.state]
    rfl
  have hfree := Located.free_of_findRegion hfinal.found
  rw [himage] at hfree
  obtain ⟨r, hr, hanchor, hmax⟩ := hfinal.jumpCode
  rw [himage] at hr hmax
  refine ⟨d, k, image, kernel, d', hlisted.incoming, hk, hread, hparse, hfinal.stored, ?_, ?_,
    fun m hm => ?_, fun f hf => ?_, hfree.clear_image, ?_⟩
  · rw [hfinal.extent]
    exact hfree.clear_extent
  · refine hfree.clear_module ?_
    show k ∈ d₃.modules
    rw [hfinal.modules]
    exact List.mem_cons_self ..
  · refine hfree.clear_module ?_
    show m ∈ d₃.modules
    rw [hfinal.modules]
    exact List.mem_cons_of_mem _ hm
  · refine hfree.clear_framebuffer ?_
    show f ∈ d₃.framebuffers
    rw [← hfinal.edited.framebuffers]
    exact hf
  · constructor
    · intro hclear q hq hhighest s hs
      have heq : ho.jumpCode = q.anchor jumpCodeSize := by
        refine Fin.le_antisymm ?_ (hmax q hq)
        rw [hanchor]
        exact hhighest r hr
      unfold Located.lastPage
      rw [← heq]
      exact hclear s hs
    · intro hclear s hs
      rw [hanchor] at hmax ⊢
      exact hclear r hr hmax s hs

theorem sample_jumpPage : (sample 0x2000).memory.Disjoint
    ∧ KernelApart (sample 0x2000).memory 0x2000 ∧ ∃ l' kernel d',
      (sample 0x2000).prepare 0x2000 = (l', .ok ⟨0x7000, 0x100, bootMagic, 0x5000⟩)
      ∧ descriptorAt l'.memory 0x7000 = .ok d'
      ∧ (Range.span 0x5000 jumpCodeSize).overlaps (extentAt 0x7000 d') = false
      ∧ (∀ m ∈ d'.modules, (Range.span 0x5000 jumpCodeSize).overlaps m.2.range = false)
      ∧ ((∀ s ∈ Elf.Header.loadable kernel,
            (Range.span 0x5000 jumpCodeSize).overlaps s.range = false) ↔
          Located.JumpClear ⟨0x7000, d'⟩ (.span 0 0) (.span 0x100 84) l'.ceiling kernel.loadable) := by
  obtain ⟨l', h⟩ := sample_prepare
  obtain ⟨d, k, image, kernel, d', hd, hk, -, -, hd', hextent, -, hmods, -, -, hiff⟩ :=
    prepare_jumpPage sample_disjoint sample_apart h
  have hrange : ∀ d ∈ (descriptorAt (sample 0x2000).memory 0x2000).toOption,
      ∀ k ∈ d.modules[0]?, k.2.range = .span 0x100 84 := by
    decide +kernel
  rw [hrange d (by rw [hd]; rfl) k hk] at hiff
  exact ⟨sample_disjoint, sample_apart, l', kernel, d', h, hd', hextent, hmods, hiff⟩

/-- the page found may be one that a segment is loaded to: here the segment from `0x5000` on meets
the page at `0x7000`, and the page at `0x4000` is free -/
theorem jumpPage_meets_segment : (sample 0x5000).memory.Disjoint
    ∧ KernelApart (sample 0x5000).memory 0x2000 ∧ ∃ l' d k image kernel,
      (sample 0x5000).prepare 0x2000 = (l', .ok ⟨0x2000, 0x100, bootMagic, 0x7000⟩)
      ∧ descriptorAt (sample 0x5000).memory 0x2000 = .ok d ∧ d.modules[0]? = some k
      ∧ l'.memory.read k.2.range = .ok image ∧ Elf.Header.parse image = .ok kernel
      ∧ ∃ s ∈ kernel.loadable, (Range.span 0x7000 jumpCodeSize).overlaps s.range = true := by
  have hm : (sample 0x5000).memory.Disjoint := by decide +kernel
  have hka : KernelApart (sample 0x5000).memory 0x2000 := by decide +kernel
  have hrun : ((sample 0x5000).prepare 0x2000).2 = .ok ⟨0x2000, 0x100, bootMagic, 0x7000⟩ := by
    decide +kernel
  have hmeet : ∀ d ∈ (descriptorAt (sample 0x5000).memory 0x2000).toOption, ∀ k ∈ d.modules[0]?,
      ∀ image ∈ ((sample 0x5000).memory.read k.2.range).toOption,
      ∀ kernel ∈ (Elf.Header.parse image).toOption, ∃ s ∈ kernel.loadable,
        (Range.span 0x7000 jumpCodeSize).overlaps s.range = true := by
    decide +kernel
  obtain ⟨d, k, image, kernel, hd, hk, hin, hread, hparse⟩ :=
    prepare_kernel hm hka (Prod.ext rfl hrun)
  exact ⟨hm, hka, _, d, k, image, kernel, Prod.ext rfl hrun, hd, hk, hread, hparse,
    hmeet d (by rw [hd]; rfl) k hk image (by rw [hin]; rfl) kernel (by rw [hparse]; rfl)⟩

end Loader

end ChainBoot
