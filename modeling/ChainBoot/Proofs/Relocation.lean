import ChainBoot.Proofs.Collection
import ChainBoot.Proofs.Search

/-!
# Relocations

From a collected state the phases that write memory fail and leave the loader as it is, or do what
`DescriptorMoved`, `ModuleMoved` and `Finalized` say.  The first two write to a place that is free
and lead to a collected state again.

* `planDescriptorMove_inv`, `planModuleMove_inv`, `planJumpCode_inv`   what a plan says;
* `moveDescriptor_cases`, `moveModule_cases`, `finalize_cases`         what comes of one phase;
* `DescriptorMoves`, `ModuleMoves`                                     any number of moves.
-/

namespace ChainBoot.Loader

variable {l l' : Loader} {d d' : Descriptor} {i : Nat} {p : Nat × BootModule} {q : BootModule}

namespace Collected

theorem size_extent (h : l.Collected d) : (extentAt l.descriptor d).size = d.size :=
  size_extentAt h.disjoint h.stored

theorem get?_eq (h : l.Collected d) (i : Nat) :
    l.modules.get? i = d.modules[i]?.map (ModuleRecord.ofModule i) := by
  rw [h.table, ModuleTable.get?_ofModules]

theorem kernel?_eq (h : l.Collected d) {k : Nat × BootModule} (hk : d.modules[0]? = some k) :
    l.modules.kernel? = some (.ofModule 0 k) := by
  unfold ModuleTable.kernel?
  rw [h.get?_eq, hk]
  rfl

theorem kernelImage_eq_ok_iff (h : l.Collected d) {k : Nat × BootModule}
    (hk : d.modules[0]? = some k) (kernel : Elf.Header) : l.kernelImage = .ok kernel ↔
      ∃ bs, l.memory.read k.2.range = .ok bs ∧ Elf.Header.parse bs = .ok kernel := by
  have hrange : (ModuleRecord.ofModule 0 k).range = k.2.range := rfl
  unfold kernelImage
  rw [h.kernel?_eq hk]
  dsimp only
  rw [hrange]
  cases l.memory.read k.2.range with
  | error r =>
    constructor
    · intro he
      cases he
    · rintro ⟨bs, he, -⟩
      cases he
  | ok bs =>
    constructor
    · intro he
      exact ⟨bs, rfl, mapError_eq_ok_iff.mp he⟩
    · rintro ⟨bs', he, hparse⟩
      cases he
      exact mapError_eq_ok_iff.mpr hparse

theorem exists_kernel (h : l.Collected d) : ∃ k, d.modules[0]? = some k := by
  cases hk : d.modules[0]? with
  | some k => exact ⟨k, rfl⟩
  | none =>
    have hlen := List.getElem?_eq_none_iff.mp hk
    exact absurd (List.length_eq_zero_iff.mp (Nat.le_zero.mp hlen)) h.some_module

end Collected

/-! ## plans

Nothing is said here about the descriptor that was found; it need not be a collected one. -/

theorem planDescriptorMove_inv {move : DescriptorMove} (h : l.planDescriptorMove = .ok move) :
    ∃ x, l.located = .ok x ∧ move.source = x.extent
      ∧ x.findRegion l.image x.extent.size .highest l.ceiling = some move.target := by
  unfold planDescriptorMove at h
  split at h
  · cases h
  · split at h
    · cases h
    · rename_i x hx
      split at h
      · cases h
      · rename_i target htarget
        cases h
        exact ⟨x, hx, rfl, htarget⟩

theorem planModuleMove_inv {move : ModuleMove} (h : l.planModuleMove = .ok (some move)) :
    ∃ kernel r x, l.kernelImage = .ok kernel
      ∧ l.modules.conflict? kernel.segments = some move.handle
      ∧ l.modules.get? move.handle = some r ∧ l.located = .ok x
      ∧ x.findRegion l.image r.size .highest l.ceiling = some move.target
      ∧ moduleBounds? move.target r.size = some (move.first, move.last)
      ∧ move.tagOffset = r.tagOffset ∧ move.source = r.range := by
  unfold planModuleMove at h
  split at h
  · cases h
  · rename_i kernel hkernel
    split at h
    · cases h
    · rename_i i hconflict
      split at h
      · cases h
      · split at h
        · cases h
        · rename_i r hrec
          split at h
          · cases h
          · rename_i x hx
            split at h
            · cases h
            · rename_i target htarget
              split at h
              · cases h
              · rename_i first last hbounds
                cases h
                exact ⟨kernel, r, x, hkernel, hconflict, hrec, hx, htarget, hbounds, rfl, rfl⟩

theorem planJumpCode_inv {a : Address} (h : l.planJumpCode = .ok a) :
    ∃ x, l.located = .ok x ∧ x.findRegion l.image jumpCodeSize .highest l.ceiling = some a := by
  unfold planJumpCode at h
  split at h
  · cases h
  · rename_i x hx
    split at h
    · cases h
    · rename_i b hb
      cases h
      exact ⟨x, hx, hb⟩

/-! ## phases that change nothing -/

theorem moveDescriptor_of_error {e : LoadError} (hplan : l.planDescriptorMove = .error e) :
    l.moveDescriptor = (l, .failed e) := by
  unfold moveDescriptor
  rw [hplan]

theorem moveDescriptor_of_refused {move : DescriptorMove} {r : Range}
    (hplan : l.planDescriptorMove = .ok move)
    (hcopy : l.memory.copy move.source move.target = .error r) :
    l.moveDescriptor = (l, .failed (.memory r)) := by
  unfold moveDescriptor
  rw [hplan]
  dsimp only
  rw [hcopy]

theorem moveModule_of_error {e : LoadError} (hplan : l.planModuleMove = .error e) :
    l.moveModule = (l, .failed e) := by
  unfold moveModule
  rw [hplan]

theorem moveModule_of_none (hplan : l.planModuleMove = .ok none) :
    l.moveModule = (l, .next .finalizing) := by
  unfold moveModule
  rw [hplan]

theorem moveModule_of_refused {move : ModuleMove} {r : Range}
    (hplan : l.planModuleMove = .ok (some move))
    (hcopy : l.memory.copy move.source move.target = .error r) :
    l.moveModule = (l, .failed (.memory r)) := by
  unfold moveModule
  rw [hplan]
  dsimp only
  rw [hcopy]

theorem finalize_of_error {e : LoadError} (h : l.Collected d) (hplan : l.planJumpCode = .error e) :
    l.finalize = (l, .failed e) := by
  obtain ⟨k, hk⟩ := h.exists_kernel
  unfold finalize
  rw [h.kernel?_eq hk]
  dsimp only
  rw [hplan]

/-! ## moving the descriptor -/

/-- the descriptor was copied to a free place, and nothing else changed -/
structure DescriptorMoved (l : Loader) (d : Descriptor) (l' : Loader) : Prop where
  free : (l.place d).Free l.image d.size l.ceiling l'.descriptor
  frame : Memory.Frame [extentAt l'.descriptor d] l.memory l'.memory
  collected : l'.Collected d
  state : l' = { l with memory := l'.memory, descriptor := l'.descriptor, ceiling := l'.descriptor,
                        descriptorMoves := l.descriptorMoves + 1 }

theorem planDescriptorMove_spec (h : l.Collected d) {move : DescriptorMove}
    (hplan : l.planDescriptorMove = .ok move) :
    move.source = extentAt l.descriptor d
      ∧ (l.place d).findRegion l.image d.size .highest l.ceiling = some move.target := by
  obtain ⟨x, hx, hsource, htarget⟩ := planDescriptorMove_inv hplan
  have hsize : (l.place d).extent.size = d.size := h.size_extent
  rw [h.located_eq, Except.ok.injEq] at hx
  subst hx
  rw [hsize] at htarget
  exact ⟨hsource, htarget⟩

theorem moveDescriptor_spec (h : l.Collected d) {move : DescriptorMove}
    (hplan : l.planDescriptorMove = .ok move) {memory : Memory}
    (hcopy : l.memory.copy move.source move.target = .ok memory) :
    ∃ l', l.moveDescriptor = (l', .next .collecting) ∧ l.DescriptorMoved d l'
      ∧ l' = { l with memory := memory, descriptor := move.target, ceiling := move.target,
                      descriptorMoves := l.descriptorMoves + 1 } := by
  obtain ⟨hsource, htarget⟩ := planDescriptorMove_spec h hplan
  have hfree := Located.free_of_findRegion htarget
  rw [hsource] at hcopy
  obtain ⟨hframe, hstored⟩ := descriptorAt_copy h.disjoint h.stored hfree.le_top hcopy
  refine ⟨{ l with memory := memory, descriptor := move.target, ceiling := move.target,
                   descriptorMoves := l.descriptorMoves + 1 }, ?_, ⟨hfree, hframe,
    ⟨hframe.disjoint h.disjoint, hstored, h.clean, h.table, h.some_module, h.few⟩, rfl⟩, rfl⟩
  unfold moveDescriptor
  rw [hplan]
  dsimp only
  rw [hsource, hcopy]

/-- **The descriptor stays, or it is moved to a free place.** -/
theorem moveDescriptor_cases (h : l.Collected d) :
    (∃ e, l.moveDescriptor = (l, .failed e))
      ∨ ∃ l', l.moveDescriptor = (l', .next .collecting) ∧ l.DescriptorMoved d l' := by
  cases hplan : l.planDescriptorMove with
  | error e => exact .inl ⟨e, moveDescriptor_of_error hplan⟩
  | ok move =>
    cases hcopy : l.memory.copy move.source move.target with
    | error r => exact .inl ⟨.memory r, moveDescriptor_of_refused hplan hcopy⟩
    | ok memory =>
      obtain ⟨l', hm, hmoved, -⟩ := moveDescriptor_spec h hplan hcopy
      exact .inr ⟨l', hm, hmoved⟩

/-! ## moving a module -/

/-- the module at place `i` was copied out of the way of the kernel, to a free place, and got the
bounds of `q` -/
structure ModuleMoved (l : Loader) (d : Descriptor) (i : Nat) (p : Nat × BootModule)
    (q : BootModule) (l' : Loader) (d' : Descriptor) : Prop where
  listed : d.modules[i]? = some p
  not_kernel : i ≠ 0
  in_way : ∃ kernel, l.kernelImage = .ok kernel
    ∧ ∃ s ∈ kernel.loadable, s.range.overlaps p.2.range = true
  label : q.label = p.2.label
  free : (l.place d).Free l.image p.2.range.size l.ceiling l'.ceiling
  range : q.range = .span l'.ceiling p.2.range.size
  contents : ∃ bs, l.memory.read p.2.range = .ok bs ∧ l'.memory.read q.range = .ok bs
  frame : Memory.Frame [q.range, extentAt l.descriptor d] l.memory l'.memory
  edited : d.Rebound i p q d'
  collected : l'.Collected d'
  state : l' = { l with memory := l'.memory, modules := l'.modules, ceiling := l'.ceiling,
                        moduleMoves := l.moduleMoves + 1 }

theorem moduleBounds?_spec {a : Address} {n : Nat} {first last : UInt32} (hn : 0 < n)
    (h : moduleBounds? a n = some (first, last)) :
    Range.inclusive (.ofUInt32 first) (.ofUInt32 last) = .span a n := by
  unfold moduleBounds? at h
  split at h
  · cases h
  · rename_i b hb
    split at h
    · rename_i v w hv hw
      cases h
      rw [Address.add?_eq_some_iff] at hb
      rw [Address.toUInt32?_eq_some_iff] at hv hw
      refine Range.ext_of_bounds hv ?_
      show min (first.toNat + (last.toNat + 1 - first.toNat)) _ = min (a.val + n) _
      rw [hv, hw, hb]
      omega
    · cases h

theorem planModuleMove_spec (h : l.Collected d) {move : ModuleMove}
    (hplan : l.planModuleMove = .ok (some move)) :
    ∃ kernel p, l.kernelImage = .ok kernel ∧ d.modules[move.handle]? = some p ∧ move.handle ≠ 0
      ∧ (∃ s ∈ kernel.loadable, s.range.overlaps p.2.range = true)
      ∧ move.tagOffset = p.1 ∧ move.source = p.2.range
      ∧ (l.place d).findRegion l.image p.2.range.size .highest l.ceiling
          = some move.target
      ∧ moduleBounds? move.target p.2.range.size = some (move.first, move.last) := by
  obtain ⟨kernel, r, x, hkernel, hconflict, hrec, hx, htarget, hbounds, hoffset, hsource⟩ :=
    planModuleMove_inv hplan
  rw [h.table] at hconflict
  obtain ⟨p, hp, hi, s, hs, hload, hmeet⟩ := ModuleTable.conflict?_ofModules hconflict
  rw [h.get?_eq, hp, Option.map_some, Option.some.injEq] at hrec
  rw [h.located_eq, Except.ok.injEq] at hx
  subst hrec hx
  exact ⟨kernel, p, hkernel, hp, hi, ⟨s, List.mem_filter.mpr ⟨hs, hload⟩, hmeet⟩, hoffset, hsource,
    htarget, hbounds⟩

theorem planModuleMove_none (hplan : l.planModuleMove = .ok none) : ∃ kernel,
    l.kernelImage = .ok kernel ∧ l.modules.conflict? kernel.segments = none := by
  unfold planModuleMove at hplan
  split at hplan
  · cases hplan
  · rename_i kernel hkernel
    refine ⟨kernel, hkernel, ?_⟩
    split at hplan
    · assumption
    · -- what is planned for a module in the way is a move or an error
      repeat' split at hplan
      all_goals cases hplan

/-- new bounds in the descriptor and in the table keep the two in agreement -/
theorem Collected.rebound (h : l.Collected d) (hedited : d.Rebound i p q d')
    (hdisjoint : l'.memory.Disjoint) (hstored : descriptorAt l'.memory l'.descriptor = .ok d')
    (htable : l'.modules = .ofModules d'.modules) : l'.Collected d' where
  disjoint := hdisjoint
  stored := hstored
  clean := by
    rw [Descriptor.clean_iff_others, hedited.others]
    exact Descriptor.clean_iff_others.mp h.clean
  table := htable
  some_module := by
    intro hnil
    have hlen := congrArg List.length hedited.modules
    rw [hnil, List.length_set] at hlen
    exact h.some_module (List.length_eq_zero_iff.mp hlen.symm)
  few := by
    rw [hedited.modules, List.length_set]
    exact h.few

theorem moveModule_spec (h : l.Collected d) {move : ModuleMove}
    (hplan : l.planModuleMove = .ok (some move)) {copied : Memory}
    (hcopy : l.memory.copy move.source move.target = .ok copied) :
    ∃ p l', l.moveModule = (l', .next .relocatingModules)
      ∧ l.ModuleMoved d move.handle p { p.2 with first := move.first, last := move.last } l'
          (d.rebound p.1 move.first move.last)
      ∧ move.source = p.2.range ∧ l'.ceiling = move.target := by
  obtain ⟨kernel, p, hkernel, hp, hi, ⟨s, hs, hmeet⟩, hoff, hsource, htarget, hbounds⟩ :=
    planModuleMove_spec h hplan
  have hfree := Located.free_of_findRegion htarget
  have hpos : 0 < p.2.range.size := Range.size_pos_of_overlaps hmeet
  let q : BootModule := { p.2 with first := move.first, last := move.last }
  have hrange : q.range = .span move.target p.2.range.size := moduleBounds?_spec hpos hbounds
  rw [hsource] at hcopy
  obtain ⟨hset, hedited⟩ := Descriptor.rebound_of_module hp move.first move.last
  obtain ⟨hparse, -⟩ := (descriptorAt_eq_ok_iff h.disjoint).mp h.stored
  obtain ⟨bs, memory, hread, hedit, hframe, hstored, hnew⟩ := editDescriptor_of_copy h.disjoint
    h.stored hfree.le_top hfree.clear_extent hcopy
    (f := fun d => d.setModuleRange p.1 move.first move.last) hset (hedited.parse hparse) hedited.size
  rw [← hrange] at hframe hnew
  refine ⟨p, { l with memory := memory,
                      modules := .ofModules (d.rebound p.1 move.first move.last).modules,
                      ceiling := move.target, moduleMoves := l.moduleMoves + 1 }, ?_,
    ⟨hp, hi, ⟨kernel, hkernel, s, hs, hmeet⟩, rfl, hfree, hrange, ⟨bs, hread, hnew⟩, hframe, hedited,
      h.rebound hedited (hframe.disjoint h.disjoint) hstored rfl, rfl⟩, hsource, rfl⟩
  unfold moveModule
  rw [hplan]
  dsimp only
  rw [hsource, hcopy]
  dsimp only
  rw [hoff, hedit, h.table]
  dsimp only
  rw [ModuleTable.update_ofModules hp, ← hedited.modules]

/-- **No module is in the way, or one is moved to a free place, or nothing changes.** -/
theorem moveModule_cases (h : l.Collected d) :
    (∃ e, l.moveModule = (l, .failed e))
      ∨ l.planModuleMove = .ok none ∧ l.moveModule = (l, .next .finalizing)
      ∨ ∃ i p q l' d', l.moveModule = (l', .next .relocatingModules)
          ∧ l.ModuleMoved d i p q l' d'
          ∧ ∃ move, l.planModuleMove = .ok (some move) ∧ move.source = p.2.range := by
  cases hplan : l.planModuleMove with
  | error e => exact .inl ⟨e, moveModule_of_error hplan⟩
  | ok planned =>
    cases planned with
    | none => exact .inr (.inl ⟨rfl, moveModule_of_none hplan⟩)
    | some move =>
      cases hcopy : l.memory.copy move.source move.target with
      | error r => exact .inl ⟨.memory r, moveModule_of_refused hplan hcopy⟩
      | ok copied =>
        obtain ⟨p, l', hm, hmoved, hsource, -⟩ := moveModule_spec h hplan hcopy
        exact .inr (.inr ⟨_, p, _, l', _, hm, hmoved, move, rfl, hsource⟩)

/-! ## the last phase -/

/-- the kernel's tag became the command line, and a free page was found before that -/
structure Finalized (l : Loader) (d : Descriptor) (k : Nat × BootModule) (l' : Loader)
    (d' : Descriptor) (ho : HandOff) : Prop where
  listed : d.modules[0]? = some k
  found : (l.place d).findRegion l.image jumpCodeSize .highest l.ceiling = some ho.jumpCode
  frame : Memory.Frame [extentAt l.descriptor d] l.memory l'.memory
  edited : d.Split k d'
  stored : descriptorAt l'.memory ho.descriptor = .ok d'
  table : l'.modules
    = (ModuleTable.ofModules d.modules).update 0 fun r => { r with state := .consumed }
  state : l' = { l with memory := l'.memory, modules := l'.modules }
  handOff : ho.descriptor = l.descriptor ∧ ho.kernel = .ofUInt32 k.2.first ∧ ho.magic = bootMagic

theorem Finalized.extent {k : Nat × BootModule} {ho : HandOff} (h : l.Finalized d k l' d' ho) :
    extentAt ho.descriptor d' = extentAt l.descriptor d := by
  rw [h.handOff.1, extentAt_congr h.edited.size]

/-- all but the page for the jump code follows from descriptor and kernel -/
theorem Finalized.handOff_eq {k : Nat × BootModule} {ho : HandOff} (h : l.Finalized d k l' d' ho) :
    ho = ⟨l.descriptor, .ofUInt32 k.2.first, bootMagic, ho.jumpCode⟩ := by
  obtain ⟨hdescriptor, hkernel, hmagic⟩ := h.handOff
  rw [← hdescriptor, ← hkernel, ← hmagic]

theorem Finalized.memoryEntries {k : Nat × BootModule} {ho : HandOff} (h : l.Finalized d k l' d' ho) :
    d'.memoryEntries = d.memoryEntries := by
  unfold Descriptor.memoryEntries
  rw [h.edited.memoryMaps]

theorem planJumpCode_spec (h : l.Collected d) {a : Address} (hplan : l.planJumpCode = .ok a) :
    (l.place d).findRegion l.image jumpCodeSize .highest l.ceiling = some a := by
  obtain ⟨x, hx, hfound⟩ := planJumpCode_inv hplan
  rw [h.located_eq, Except.ok.injEq] at hx
  subst hx
  exact hfound

theorem finalize_spec (h : l.Collected d) {a : Address} (hplan : l.planJumpCode = .ok a) :
    ∃ k l' d' ho, l.finalize = (l', .next (.handOff ho)) ∧ l.Finalized d k l' d' ho
      ∧ d.moduleToCmdline k.1 = .ok d' := by
  obtain ⟨k, hk⟩ := h.exists_kernel
  obtain ⟨d', hto, hedited⟩ := Descriptor.split_of_module hk
  obtain ⟨hparse, -⟩ := (descriptorAt_eq_ok_iff h.disjoint).mp h.stored
  obtain ⟨memory, hedit, hframe, hstored⟩ := editDescriptor_of_ok h.disjoint h.stored
    (f := fun d => d.moduleToCmdline k.1) hto (hedited.parse hparse) hedited.size
  have hedit' : editDescriptor l.memory l.descriptor
      (fun d => d.moduleToCmdline (ModuleRecord.ofModule 0 k).tagOffset) = .ok memory := hedit
  refine ⟨k, { l with memory := memory,
                      modules := l.modules.update 0 fun r => { r with state := .consumed } },
    d', ⟨l.descriptor, .ofUInt32 k.2.first, bootMagic, a⟩, ?_, ⟨hk, planJumpCode_spec h hplan, hframe,
      hedited, hstored, by rw [← h.table], rfl, rfl, rfl, rfl⟩, hto⟩
  unfold finalize
  rw [h.kernel?_eq hk]
  dsimp only
  rw [hplan]
  dsimp only
  rw [hedit']
  rfl

/-- **The kernel is handed over, or nothing changes.** -/
theorem finalize_cases (h : l.Collected d) :
    (∃ e, l.finalize = (l, .failed e))
      ∨ ∃ k l' d' ho, l.finalize = (l', .next (.handOff ho)) ∧ l.Finalized d k l' d' ho := by
  cases hplan : l.planJumpCode with
  | error e => exact .inl ⟨e, finalize_of_error h hplan⟩
  | ok a =>
    obtain ⟨k, l', d', ho, hf, hfinal, -⟩ := finalize_spec h hplan
    exact .inr ⟨k, l', d', ho, hf, hfinal⟩

/-! ## any number of moves -/

/-- moves of the descriptor, one after another -/
inductive DescriptorMoves (d : Descriptor) : Loader → Loader → Prop
  | none (l : Loader) : DescriptorMoves d l l
  | move {l l' l'' : Loader} : l.DescriptorMoved d l' → DescriptorMoves d l' l'' →
      DescriptorMoves d l l''

/-- moves of modules, one after another -/
inductive ModuleMoves : Loader → Descriptor → Loader → Descriptor → Prop
  | none (l : Loader) (d : Descriptor) : ModuleMoves l d l d
  | move {l l' l'' : Loader} {d d' d'' : Descriptor} {i : Nat} {p : Nat × BootModule}
      {q : BootModule} : l.ModuleMoved d i p q l' d' → ModuleMoves l' d' l'' d'' →
      ModuleMoves l d l'' d''

theorem DescriptorMoves.collected (h : DescriptorMoves d l l') (hl : l.Collected d) :
    l'.Collected d := by
  induction h with
  | none l => exact hl
  | move hmove _ ih => exact ih hmove.collected

theorem ModuleMoves.collected (h : ModuleMoves l d l' d') (hl : l.Collected d) :
    l'.Collected d' := by
  induction h with
  | none l d => exact hl
  | move hmove _ ih => exact ih hmove.collected

theorem DescriptorMoved.image (h : l.DescriptorMoved d l') : l'.image = l.image := by
  rw [h.state]

theorem ModuleMoved.image (h : l.ModuleMoved d i p q l' d') : l'.image = l.image := by
  rw [h.state]

theorem ModuleMoved.descriptor (h : l.ModuleMoved d i p q l' d') :
    l'.descriptor = l.descriptor := by
  rw [h.state]

theorem ModuleMoved.follows (h : l.ModuleMoved d i p q l' d') : d.Follows d' :=
  h.edited.follows h.listed h.not_kernel h.label

theorem ModuleMoved.extent (h : l.ModuleMoved d i p q l' d') :
    extentAt l'.descriptor d' = extentAt l.descriptor d := by
  rw [h.descriptor, extentAt_congr h.edited.size]

theorem ModuleMoves.follows (h : ModuleMoves l d l' d') : d.Follows d' := by
  induction h with
  | none l d => exact .refl d
  | move hmove _ ih => exact hmove.follows.trans ih

theorem ModuleMoves.descriptor (h : ModuleMoves l d l' d') : l'.descriptor = l.descriptor := by
  induction h with
  | none l d => rfl
  | move hmove _ ih => rw [ih, hmove.descriptor]

theorem ModuleMoves.image (h : ModuleMoves l d l' d') : l'.image = l.image := by
  induction h with
  | none l d => rfl
  | move hmove _ ih => rw [ih, hmove.image]

theorem DescriptorMoves.image (h : DescriptorMoves d l l') : l'.image = l.image := by
  induction h with
  | none l => rfl
  | move hmove _ ih => rw [ih, hmove.image]

end ChainBoot.Loader
