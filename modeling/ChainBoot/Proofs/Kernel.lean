import ChainBoot.Proofs.Runs

/-!
# The kernel's image during a run

The kernel is never moved, and nothing is written to its bytes as long as they share none with the
descriptor.  A moved descriptor shares none; where the incoming one shares none either,
`KernelApart`, the kernel's program headers are the same at every station of a run.

* `Apart`                              the kernel and the descriptor share no byte now;
* `ModuleMoves.read_kernel`            that stays so, and so do the bytes, whatever is moved;
* `kernel_at_end`, `prepare_kernel`    a kernel handed over has the bytes that came in.
-/

namespace ChainBoot.Loader

variable {l l' : Loader} {d d' : Descriptor} {i : Nat} {p k : Nat × BootModule} {q : BootModule}

/-- the first module that the descriptor at `a` lists shares no byte with it -/
def KernelApart (m : Memory) (a : Address) : Prop :=
  ∀ d k, descriptorAt m a = .ok d → d.modules[0]? = some k →
    k.2.range.overlaps (extentAt a d) = false

instance (m : Memory) (a : Address) : Decidable (KernelApart m a) :=
  decidable_of_iff (∀ d ∈ (descriptorAt m a).toOption, ∀ k ∈ d.modules[0]?,
      k.2.range.overlaps (extentAt a d) = false) <| by
    constructor
    · intro h d k hd hk
      exact h d (by rw [hd]; rfl) k hk
    · intro h d hd k hk
      cases hd' : descriptorAt m a with
      | error e =>
        rw [hd'] at hd
        cases hd
      | ok d' =>
        rw [hd'] at hd
        cases hd
        exact h d k hd' hk

/-- the kernel shares no byte with the descriptor where it lies now -/
def Apart (l : Loader) (d : Descriptor) : Prop :=
  ∀ k, d.modules[0]? = some k → k.2.range.overlaps (extentAt l.descriptor d) = false

theorem Listed.apart (h : l.Listed d l' d') (ha : KernelApart l.memory l.descriptor) :
    Apart l' d' := by
  intro k hk
  have hdesc : l'.descriptor = l.descriptor := by rw [h.state]
  rw [h.retired.modules] at hk
  rw [hdesc, extentAt_congr h.retired.size]
  exact ha d k h.incoming hk

theorem kernelImage_congr (hl : l.Collected d) (hl' : l'.Collected d')
    (hk : d.modules[0]? = some k) (hk' : d'.modules[0]? = some k)
    (hread : l'.memory.read k.2.range = l.memory.read k.2.range) :
    l'.kernelImage = l.kernelImage := by
  have hkernel := hl.kernel?_eq hk
  have hkernel' := hl'.kernel?_eq hk'
  have hrange : (ModuleRecord.ofModule 0 k).range = k.2.range := rfl
  unfold kernelImage
  rw [hkernel, hkernel']
  dsimp only
  rw [hrange, hread]

/-! ## one move -/

theorem Listed.read_kernel (h : l.Listed d l' d') (hm : l.memory.Disjoint)
    (ha : KernelApart l.memory l.descriptor) (hk : d.modules[0]? = some k) :
    l'.memory.read k.2.range = l.memory.read k.2.range := by
  refine h.frame.read hm fun r hr => ?_
  rw [List.mem_singleton.mp hr]
  exact ha d k h.incoming hk

theorem DescriptorMoved.apart (h : l.DescriptorMoved d l') : Apart l' d := by
  intro k hk
  rw [Range.overlaps_comm]
  exact h.free.clear_module (List.mem_of_getElem? hk)

theorem DescriptorMoved.read_kernel (h : l.DescriptorMoved d l') (hl : l.Collected d)
    (hk : d.modules[0]? = some k) : l'.memory.read k.2.range = l.memory.read k.2.range := by
  refine h.frame.read hl.disjoint fun r hr => ?_
  rw [List.mem_singleton.mp hr]
  exact h.apart k hk

theorem ModuleMoved.apart (h : l.ModuleMoved d i p q l' d') (ha : Apart l d) : Apart l' d' := by
  intro k hk
  rw [h.follows.kernel] at hk
  rw [h.extent]
  exact ha k hk

theorem ModuleMoved.read_kernel (h : l.ModuleMoved d i p q l' d') (hl : l.Collected d)
    (ha : Apart l d) (hk : d.modules[0]? = some k) :
    l'.memory.read k.2.range = l.memory.read k.2.range := by
  refine h.frame.read hl.disjoint fun r hr => ?_
  rcases List.mem_cons.mp hr with rfl | hr
  · rw [Range.overlaps_comm, h.range]
    exact h.free.clear_module (List.mem_of_getElem? hk)
  · rw [List.mem_singleton.mp hr]
    exact ha k hk

theorem ModuleMoved.kernelImage (h : l.ModuleMoved d i p q l' d') (hl : l.Collected d)
    (ha : Apart l d) : l'.kernelImage = l.kernelImage := by
  obtain ⟨k, hk⟩ := hl.exists_kernel
  exact kernelImage_congr hl h.collected hk (by rw [h.follows.kernel, hk]) (h.read_kernel hl ha hk)

theorem Finalized.read_kernel {ho : HandOff} (h : l.Finalized d k l' d' ho) (hl : l.Collected d)
    (ha : Apart l d) : l'.memory.read k.2.range = l.memory.read k.2.range := by
  refine h.frame.read hl.disjoint fun r hr => ?_
  rw [List.mem_singleton.mp hr]
  exact ha k h.listed

/-! ## any number of moves -/

theorem DescriptorMoves.read_kernel (h : DescriptorMoves d l l') (hl : l.Collected d)
    (ha : Apart l d) (hk : d.modules[0]? = some k) :
    Apart l' d ∧ l'.memory.read k.2.range = l.memory.read k.2.range := by
  induction h with
  | none l => exact ⟨ha, rfl⟩
  | move hmove _ ih =>
    obtain ⟨ha', hread⟩ := ih hmove.collected hmove.apart
    exact ⟨ha', by rw [hread, hmove.read_kernel hl hk]⟩

theorem ModuleMoves.read_kernel (h : ModuleMoves l d l' d') (hl : l.Collected d)
    (ha : Apart l d) (hk : d.modules[0]? = some k) :
    Apart l' d' ∧ l'.memory.read k.2.range = l.memory.read k.2.range := by
  induction h with
  | none l d => exact ⟨ha, rfl⟩
  | move hmove _ ih =>
    obtain ⟨ha', hread⟩ := ih hmove.collected (hmove.apart ha) (by rw [hmove.follows.kernel, hk])
    exact ⟨ha', by rw [hread, hmove.read_kernel hl ha hk]⟩

/-! ## whole runs -/

/-- the kernel handed over is the first module that came in; its bytes never changed, and its
program headers can be read again in the end -/
theorem kernel_at_end {l l₁ l₂ l₃ l₄ : Loader} {a : Address} {d d₁ d₃ d₄ : Descriptor}
    {ho : HandOff} (hm : l.memory.Disjoint) (hka : KernelApart l.memory a)
    (hlisted : (l.aim a).Listed d l₁ d₁) (hdesc : DescriptorMoves d₁ l₁ l₂)
    (hmods : ModuleMoves l₂ d₁ l₃ d₃) (hfinal : l₃.Finalized d₃ k l₄ d₄ ho) :
    d.modules[0]? = some k ∧ l₃.kernelImage = l₂.kernelImage
      ∧ l₄.memory.read k.2.range = l.memory.read k.2.range
      ∧ ∀ kernel, l₃.kernelImage = .ok kernel →
          ∃ image, l₄.memory.read k.2.range = .ok image ∧ Elf.Header.parse image = .ok kernel := by
  have hl₁ := hlisted.collected
  have hl₂ := hdesc.collected hl₁
  have hl₃ := hmods.collected hl₂
  have hk₁ : d₁.modules[0]? = some k := by rw [← hmods.follows.kernel, hfinal.listed]
  have hk : d.modules[0]? = some k := by rw [← hlisted.retired.modules, hk₁]
  obtain ⟨ha₂, hread₂⟩ := hdesc.read_kernel hl₁ (hlisted.apart hka) hk₁
  obtain ⟨ha₃, hread₃⟩ := hmods.read_kernel hl₂ ha₂ hk₁
  have hread₁ : l₁.memory.read k.2.range = l.memory.read k.2.range :=
    hlisted.read_kernel hm hka hk
  have hread₄ := hfinal.read_kernel hl₃ ha₃
  refine ⟨hk, kernelImage_congr hl₂ hl₃ hk₁ hfinal.listed hread₃, ?_, fun kernel hkernel => ?_⟩
  · rw [hread₄, hread₃, hread₂, hread₁]
  · obtain ⟨image, hread, hparse⟩ := (hl₃.kernelImage_eq_ok_iff hfinal.listed kernel).mp hkernel
    exact ⟨image, by rw [hread₄, hread], hparse⟩

/-- **A kernel handed over has the bytes that came in, and they parse.** -/
theorem prepare_kernel {a : Address} {ho : HandOff} (hm : l.memory.Disjoint)
    (hka : KernelApart l.memory a) (h : l.prepare a = (l', .ok ho)) :
    ∃ d k image kernel, descriptorAt l.memory a = .ok d ∧ d.modules[0]? = some k
      ∧ l.memory.read k.2.range = .ok image ∧ l'.memory.read k.2.range = .ok image
      ∧ Elf.Header.parse image = .ok kernel := by
  obtain ⟨d, l₁, d₁, l₂, l₃, d₃, k, d', hlisted, hdesc, -, hmods, hplan, hfinal⟩ := prepare_ok hm h
  obtain ⟨hk, -, hread, hend⟩ := kernel_at_end hm hka hlisted hdesc hmods hfinal
  obtain ⟨kernel, hkernel, -⟩ := planModuleMove_none hplan
  obtain ⟨image, hread', hparse⟩ := hend kernel hkernel
  exact ⟨d, k, image, kernel, hlisted.incoming, hk, by rw [← hread, hread'], hread', hparse⟩

theorem sample_apart : KernelApart (sample 0x2000).memory 0x2000 := by decide +kernel

end ChainBoot.Loader
