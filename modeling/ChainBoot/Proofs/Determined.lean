import ChainBoot.Proofs.Kernel
import ChainBoot.Proofs.Settled

/-!
# What decides a run

A run reads the descriptor and the kernel's image and nothing else: what it copies from place to
place it does not look at.  So two loaders that differ in other bytes than these do the same.  The
two runs are led side by side.  A phase writes the descriptor, which is the same on both sides, and
copies of modules to free places, where neither the descriptor nor the kernel lies; hence whatever a
later phase reads is the same again.

* `SameDescriptor`           two memories with the same descriptor at an address;
* `Matched`                  a second memory that a loader cannot tell from its own;
* `Paired`                   two results that differ in such a memory alone;
* `Matched.write`            what a phase may write;
* `Matched.step`, `Matched.run`   one phase, and a run;
* `prepare_determined`       the same from the start, where the tables may still differ.
-/

namespace ChainBoot.Loader

variable {l : Loader} {m m' : Memory} {a : Address} {d d' : Descriptor} {p : Phase}

/-! ## the bytes of a descriptor -/

/-- the same bytes wherever a descriptor at `a` is read from: in its header, and in as much as the
header declares -/
structure SameDescriptor (a : Address) (m m' : Memory) : Prop where
  header : Memory.Agree (.span a Descriptor.headerSize) m m'
  extent : ∀ header total, m.read (.span a Descriptor.headerSize) = .ok header →
    Descriptor.peekTotal? header = some total → Memory.Agree (.span a total.toNat) m m'

theorem SameDescriptor.descriptorAt_eq (h : SameDescriptor a m m') (hm : m.Disjoint)
    (hlayout : m'.layout = m.layout) : descriptorAt m' a = descriptorAt m a := by
  have hheader := Memory.read_congr hm hlayout h.header
  unfold descriptorAt declaredExtent descriptorWithin
  rw [hheader]
  cases hread : m.read (.span a Descriptor.headerSize) with
  | error r => rfl
  | ok header =>
    dsimp only
    cases htotal : Descriptor.peekTotal? header with
    | none => rfl
    | some total =>
      dsimp only
      rw [Memory.read_congr hm hlayout (h.extent header total hread htotal)]

section
variable (hm : m.Disjoint) (hm' : m'.Disjoint) (h : descriptorAt m a = .ok d)
  (h' : descriptorAt m' a = .ok d)
include hm hm' h h'

theorem agree_extentAt : Memory.Agree (extentAt a d) m m' := by
  obtain ⟨-, hread⟩ := (descriptorAt_eq_ok_iff hm).mp h
  obtain ⟨-, hread'⟩ := (descriptorAt_eq_ok_iff hm').mp h'
  exact Memory.agree_of_read hm hm' hread hread'

theorem sameDescriptor_of_ok : SameDescriptor a m m' := by
  have hagree := agree_extentAt hm hm' h h'
  obtain ⟨hparse, hread⟩ := (descriptorAt_eq_ok_iff hm).mp h
  obtain ⟨hlo, total, htotal, hlen⟩ := (Descriptor.parse_self_iff d).mp hparse
  unfold extentAt at hagree hread
  refine ⟨fun x hx => hagree x ?_, fun header total' hheader htotal' => ?_⟩
  · rw [Range.mem_span] at hx ⊢
    omega
  · -- the header is the front of the descriptor
    have hfront := Memory.read_take hm hread hlo
    rw [hheader, Except.ok.injEq] at hfront
    rw [hfront, Descriptor.peekTotal?_take (Nat.le_refl _), htotal, Option.some.injEq] at htotal'
    rw [← htotal', hlen]
    exact hagree

end

/-! ## two loaders -/

/-- a second memory that agrees with the loader's in the descriptor and in the kernel that `d`
lists -/
structure Matched (d : Descriptor) (l : Loader) (m : Memory) : Prop where
  layout : m.layout = l.memory.layout
  descriptor : SameDescriptor l.descriptor l.memory m
  kernel : ∀ k, d.modules[0]? = some k → Memory.Agree k.2.range l.memory m

/-- two results that differ in the memory alone, and there not in what matters -/
def Paired {α : Type} (d : Descriptor) (r r' : Loader × α) : Prop :=
  ∃ m, r' = ({ r.1 with memory := m }, r.2) ∧ Matched d r.1 m

namespace Matched

theorem of_kernel (h : Matched d l m) (hk : d'.modules[0]? = d.modules[0]?) : Matched d' l m where
  layout := h.layout
  descriptor := h.descriptor
  kernel := by
    rw [hk]
    exact h.kernel

/-- two loaders may write a descriptor, the same one, or anything away from the kernel -/
theorem write {l' : Loader} {rs : List Range} (h : Matched d l m) (hm : l.memory.Disjoint)
    (hframe : Memory.Frame rs l.memory l'.memory) (hframe' : Memory.Frame rs m m')
    (hstored : descriptorAt l'.memory l'.descriptor = .ok d')
    (hstored' : descriptorAt m' l'.descriptor = .ok d')
    (hrs : ∀ q ∈ rs, q = extentAt l'.descriptor d'
      ∨ ∀ k, d.modules[0]? = some k → k.2.range.overlaps q = false) : Matched d l' m' := by
  have hdisjoint := hframe.disjoint hm
  have hdisjoint' := hframe'.disjoint ((Memory.disjoint_congr h.layout).mpr hm)
  refine ⟨?_, sameDescriptor_of_ok hdisjoint hdisjoint' hstored hstored', fun k hk => ?_⟩
  · rw [hframe'.layout, h.layout, hframe.layout]
  · refine (h.kernel k hk).frame hframe hframe' fun q hq => ?_
    rcases hrs q hq with rfl | hapart
    · exact .inr (agree_extentAt hdisjoint hdisjoint' hstored hstored')
    · exact .inl (hapart k hk)

/-! ## one phase -/

section
variable (h : Matched d l m) (hl : l.Collected d)
include h hl

theorem collected : ({ l with memory := m } : Loader).Collected d where
  disjoint := (Memory.disjoint_congr h.layout).mpr hl.disjoint
  stored := by
    show descriptorAt m l.descriptor = .ok d
    rw [h.descriptor.descriptorAt_eq hl.disjoint h.layout, hl.stored]
  clean := hl.clean
  table := hl.table
  some_module := hl.some_module
  few := hl.few

theorem located_eq : ({ l with memory := m } : Loader).located = l.located :=
  (h.collected hl).located_eq.trans hl.located_eq.symm

theorem kernelImage_eq : ({ l with memory := m } : Loader).kernelImage = l.kernelImage := by
  obtain ⟨k, hk⟩ := hl.exists_kernel
  exact kernelImage_congr hl (h.collected hl) hk hk
    (Memory.read_congr hl.disjoint h.layout (h.kernel k hk))

theorem collect : Paired d l.collect ({ l with memory := m } : Loader).collect := by
  rw [hl.collect, (h.collected hl).collect]
  exact ⟨m, rfl, h⟩

theorem validatePlacement :
    Paired d l.validatePlacement ({ l with memory := m } : Loader).validatePlacement := by
  have hverdict : ({ l with memory := m } : Loader).placementVerdict = l.placementVerdict := by
    unfold placementVerdict
    rw [h.kernelImage_eq hl, h.located_eq hl]
  unfold Loader.validatePlacement
  rw [hverdict]
  cases l.placementVerdict with
  | error e => exact ⟨m, rfl, h⟩
  | ok p => exact ⟨m, rfl, h⟩

theorem moveDescriptor :
    Paired d l.moveDescriptor ({ l with memory := m } : Loader).moveDescriptor := by
  have hplan : ({ l with memory := m } : Loader).planDescriptorMove = l.planDescriptorMove := by
    unfold planDescriptorMove
    rw [h.located_eq hl]
  cases hmove : l.planDescriptorMove with
  | error e =>
    rw [moveDescriptor_of_error hmove, moveDescriptor_of_error (hplan.trans hmove)]
    exact ⟨m, rfl, h⟩
  | ok move =>
    rcases Memory.copy_congr h.layout move.source move.target with
      ⟨r, hcopy, hcopy'⟩ | ⟨m₁, m₁', hcopy, hcopy'⟩
    · rw [moveDescriptor_of_refused hmove hcopy,
        moveDescriptor_of_refused (hplan.trans hmove) hcopy']
      exact ⟨m, rfl, h⟩
    · obtain ⟨l₁, hstep, hmoved, hl₁⟩ := moveDescriptor_spec hl hmove hcopy
      obtain ⟨l₁', hstep', hmoved', hl₁'⟩ :=
        moveDescriptor_spec (h.collected hl) (hplan.trans hmove) hcopy'
      rw [hstep, hstep']
      subst hl₁ hl₁'
      exact ⟨m₁', rfl, h.write hl.disjoint hmoved.frame hmoved'.frame hmoved.collected.stored
        hmoved'.collected.stored fun q hq => .inl (List.mem_singleton.mp hq)⟩

theorem moveModule : Paired d l.moveModule ({ l with memory := m } : Loader).moveModule := by
  have hplan : ({ l with memory := m } : Loader).planModuleMove = l.planModuleMove := by
    unfold planModuleMove
    rw [h.kernelImage_eq hl, h.located_eq hl]
  cases hmove : l.planModuleMove with
  | error e =>
    rw [moveModule_of_error hmove, moveModule_of_error (hplan.trans hmove)]
    exact ⟨m, rfl, h⟩
  | ok planned =>
    cases planned with
    | none =>
      rw [moveModule_of_none hmove, moveModule_of_none (hplan.trans hmove)]
      exact ⟨m, rfl, h⟩
    | some move =>
      rcases Memory.copy_congr h.layout move.source move.target with
        ⟨r, hcopy, hcopy'⟩ | ⟨m₁, m₁', hcopy, hcopy'⟩
      · rw [moveModule_of_refused hmove hcopy, moveModule_of_refused (hplan.trans hmove) hcopy']
        exact ⟨m, rfl, h⟩
      · obtain ⟨q, l₁, hstep, hmoved, -, hceiling⟩ := moveModule_spec hl hmove hcopy
        obtain ⟨q', l₁', hstep', hmoved', -, hceiling'⟩ :=
          moveModule_spec (h.collected hl) (hplan.trans hmove) hcopy'
        -- both sides move the same module
        obtain rfl : q = q' := by
          have hq := hmoved.listed
          rw [hmoved'.listed, Option.some.injEq] at hq
          exact hq.symm
        have hsame : l₁' = { l₁ with memory := l₁'.memory } := by
          rw [hmoved'.state, hmoved.state, hmoved'.collected.table, hmoved.collected.table, hceiling,
            hceiling']
        have hdescriptor : l₁'.descriptor = l₁.descriptor := by rw [hsame]
        have hstored' := hmoved'.collected.stored
        rw [hdescriptor] at hstored'
        rw [hstep, hstep', hsame]
        refine ⟨l₁'.memory, rfl, h.write hl.disjoint hmoved.frame hmoved'.frame
          hmoved.collected.stored hstored' fun r hr => ?_⟩
        rcases List.mem_cons.mp hr with rfl | hr
        · refine .inr fun k hk => ?_
          rw [Range.overlaps_comm, hmoved.range]
          exact hmoved.free.clear_module (List.mem_of_getElem? hk)
        · rw [List.mem_singleton.mp hr, hmoved.extent]
          exact .inl rfl

theorem finalize : Paired d l.finalize ({ l with memory := m } : Loader).finalize := by
  have hplan : ({ l with memory := m } : Loader).planJumpCode = l.planJumpCode := by
    unfold planJumpCode
    rw [h.located_eq hl]
  cases hpage : l.planJumpCode with
  | error e =>
    rw [finalize_of_error hl hpage, finalize_of_error (h.collected hl) (hplan.trans hpage)]
    exact ⟨m, rfl, h⟩
  | ok page =>
    obtain ⟨k, l₁, d₁, ho, hstep, hfinal, hedit⟩ := finalize_spec hl hpage
    obtain ⟨k', l₁', d₁', ho', hstep', hfinal', hedit'⟩ :=
      finalize_spec (h.collected hl) (hplan.trans hpage)
    -- both sides hand over the same kernel and the same page
    obtain rfl : k = k' := by
      have hk := hfinal.listed
      rw [hfinal'.listed, Option.some.injEq] at hk
      exact hk.symm
    obtain rfl : d₁ = d₁' := by
      rw [hedit, Except.ok.injEq] at hedit'
      exact hedit'
    obtain rfl : ho = ho' := by
      have hfound : (l.place d).findRegion l.image jumpCodeSize .highest l.ceiling
          = some ho'.jumpCode := hfinal'.found
      rw [hfinal.found, Option.some.injEq] at hfound
      rw [hfinal.handOff_eq, hfinal'.handOff_eq, hfound]
    have hsame : l₁' = { l₁ with memory := l₁'.memory } := by
      rw [hfinal'.state, hfinal.state, hfinal'.table, hfinal.table]
    have hplace : l₁.descriptor = ho.descriptor := by rw [hfinal.state, hfinal.handOff.1]
    have hstored := hfinal.stored
    have hstored' := hfinal'.stored
    have hextent := hfinal.extent
    rw [← hplace] at hstored hstored' hextent
    rw [hstep, hstep', hsame]
    refine ⟨l₁'.memory, rfl, h.write hl.disjoint hfinal.frame hfinal'.frame hstored hstored'
      fun q hq => .inl ?_⟩
    rw [List.mem_singleton.mp hq, hextent]

/-- **A phase does the same on both sides.** -/
theorem step (hp : ∀ ho, p ≠ .handOff ho) :
    Paired d (l.step p) (({ l with memory := m } : Loader).step p) := by
  cases p with
  | collecting => exact h.collect hl
  | validatingPlacement => exact h.validatePlacement hl
  | relocatingDescriptor => exact h.moveDescriptor hl
  | relocatingModules => exact h.moveModule hl
  | finalizing => exact h.finalize hl
  | handOff ho => exact absurd rfl (hp ho)

end

/-! ## a run behind a collection -/

/-- **A run does the same on both sides.** -/
theorem run (h : Matched d l m) (hl : l.Collected d) (hp : ∀ ho, p ≠ .handOff ho) :
    Paired d (l.run p) (({ l with memory := m } : Loader).run p) := by
  induction l, p using run_induction generalizing d m with
  | next l p l₁ p₁ hnext ih =>
    obtain ⟨m₁, hstep, h₁⟩ := h.step hl hp
    rw [hnext] at hstep h₁
    rw [run_of_next hnext, run_of_next hstep]
    by_cases hho : ∃ ho, p₁ = .handOff ho
    · obtain ⟨ho, rfl⟩ := hho
      rw [run_of_done (p := .handOff ho) rfl, run_of_done (p := .handOff ho) rfl]
      exact ⟨m₁, rfl, h₁⟩
    · have hp₁ : ∀ ho, p₁ ≠ .handOff ho := fun ho hho' => hho ⟨ho, hho'⟩
      obtain ⟨d₁, hl₁, hk⟩ := exists_collected_of_next hl hnext hp₁
      obtain ⟨m₂, hrun, h₂⟩ := ih (h₁.of_kernel hk) hl₁ hp₁
      exact ⟨m₂, hrun, h₂.of_kernel hk.symm⟩
  | done l p l₁ ho hdone =>
    obtain ⟨rfl, -⟩ := step_done hdone
    exact absurd rfl (hp ho)
  | failed l p l₁ e hfailed =>
    obtain ⟨m₁, hstep, h₁⟩ := h.step hl hp
    rw [hfailed] at hstep h₁
    rw [run_of_failed hfailed, run_of_failed hstep]
    exact ⟨m₁, rfl, h₁⟩

/-! ## from the start -/

theorem collect_incoming (h : Matched d l m) (hm : l.memory.Disjoint)
    (hd : descriptorAt l.memory l.descriptor = .ok d) (t : ModuleTable) :
    Paired d l.collect ({ l with memory := m, modules := t } : Loader).collect := by
  obtain ⟨r, hr, hret⟩ := d.dropCmdlines_retired
  have hd' : descriptorAt m l.descriptor = .ok d := by
    rw [h.descriptor.descriptorAt_eq hm h.layout, hd]
  obtain ⟨hparse, -⟩ := (descriptorAt_eq_ok_iff hm).mp hd
  obtain ⟨m₁, hw, hframe, hstored⟩ := descriptorAt_write hm hd (hret.parse hparse) hret.size
  obtain ⟨m₁', hw', hframe', hstored'⟩ := descriptorAt_write
    ((Memory.disjoint_congr h.layout).mpr hm) hd' (hret.parse hparse) hret.size
  rw [collect_of_write hd hr hw,
    collect_of_write (l := { l with memory := m, modules := t }) hd' hr hw']
  refine ⟨m₁', rfl, h.write hm hframe hframe' hstored hstored' fun q hq => .inl ?_⟩
  rw [List.mem_singleton.mp hq, extentAt_congr hret.size]

theorem prepare (h : Matched d (l.aim a) m) (hm : l.memory.Disjoint)
    (hd : descriptorAt l.memory a = .ok d) (t : ModuleTable) :
    Paired d (l.prepare a) (({ l.aim a with memory := m, modules := t } : Loader).run .collecting) := by
  obtain ⟨m₁, hstep, h₁⟩ := h.collect_incoming hm hd t
  rcases collect_cases (l := l.aim a) hm with ⟨l₁, e, hc⟩ | ⟨d₀, l₁, d₁, hc, hlisted⟩
  · have hrun : l.prepare a = (l₁, .error e) := run_of_failed (p := .collecting) hc
    rw [hc] at hstep h₁
    rw [hrun, run_of_failed (p := .collecting) hstep]
    exact ⟨m₁, rfl, h₁⟩
  · have hrun : l.prepare a = l₁.run .validatingPlacement := run_of_next (p := .collecting) hc
    have hk : d₁.modules[0]? = d.modules[0]? := by
      have hincoming : descriptorAt l.memory a = .ok d₀ := hlisted.incoming
      rw [hd, Except.ok.injEq] at hincoming
      rw [hlisted.retired.modules, hincoming]
    rw [hc] at hstep h₁
    rw [hrun, run_of_next (p := .collecting) hstep]
    obtain ⟨m₂, hrest, h₂⟩ :=
      (h₁.of_kernel hk).run (p := .validatingPlacement) hlisted.collected fun ho hho => by cases hho
    exact ⟨m₂, hrest, h₂.of_kernel hk.symm⟩

end Matched

/-- **What a run does is decided by the descriptor and the kernel's image.**  Two memories with the
same banks may differ in every other byte: what comes of the run is the same, and so are the
descriptor's address, the ceiling, the counters and the table that it leaves; the memories that it
leaves agree in the descriptor where it lies then, and in the kernel's image. -/
theorem prepare_determined {l l' : Loader} {a : Address} (hm : l.memory.Disjoint)
    (hlayout : l'.memory.layout = l.memory.layout)
    (hstate : l'.image = l.image ∧ l'.ceiling = l.ceiling
      ∧ l'.descriptorMoves = l.descriptorMoves ∧ l'.moduleMoves = l.moduleMoves)
    (hdescriptor : SameDescriptor a l.memory l'.memory)
    (hkernel : ∀ d k, descriptorAt l.memory a = .ok d → d.modules[0]? = some k →
      Memory.Agree k.2.range l.memory l'.memory) :
    (l'.prepare a).2 = (l.prepare a).2
      ∧ (l'.prepare a).1 = { (l.prepare a).1 with memory := (l'.prepare a).1.memory }
      ∧ SameDescriptor (l.prepare a).1.descriptor (l.prepare a).1.memory (l'.prepare a).1.memory
      ∧ ∀ d k, descriptorAt l.memory a = .ok d → d.modules[0]? = some k →
        Memory.Agree k.2.range (l.prepare a).1.memory (l'.prepare a).1.memory := by
  have haim : l'.aim a = { l.aim a with memory := l'.memory, modules := l'.modules } := by
    obtain ⟨himage, hceiling, hmoves, hmoves'⟩ := hstate
    unfold aim
    rw [himage, hceiling, hmoves, hmoves']
  have hprepare : l'.prepare a = ({ l.aim a with memory := l'.memory, modules := l'.modules } :
      Loader).run .collecting := by
    rw [← haim]
    rfl
  cases hd : descriptorAt l.memory a with
  | error e =>
    have hd' : descriptorAt l'.memory a = .error e := by
      rw [hdescriptor.descriptorAt_eq hm hlayout, hd]
    have hleft : l.prepare a = ({ l.aim a with modules := .empty }, .error e) :=
      run_of_failed (p := .collecting) (collect_of_error (l := l.aim a) hd)
    rw [hprepare, run_of_failed (p := .collecting) (collect_of_error
      (l := { l.aim a with memory := l'.memory, modules := l'.modules }) hd'), hleft]
    refine ⟨rfl, rfl, hdescriptor, fun d k hd => ?_⟩
    cases hd
  | ok d =>
    have hmatched : Matched d (l.aim a) l'.memory := ⟨hlayout, hdescriptor, fun k => hkernel d k hd⟩
    obtain ⟨m, hrun, hend⟩ := hmatched.prepare hm hd l'.modules
    rw [hprepare, hrun]
    refine ⟨rfl, rfl, hend.descriptor, fun d₁ k hd₁ => ?_⟩
    rw [Except.ok.injEq] at hd₁
    rw [← hd₁]
    exact hend.kernel k

/-- the sample with other bytes in the module and in what is free, and with an old table -/
def sampleElsewhere : Loader :=
  { sample 0x2000 with
    memory := ⟨[⟨.ofUInt32 0x100, (sampleKernel 0x2000).toArray⟩,
      ⟨.ofUInt32 0x2000, sampleDescriptor.toArray⟩, ⟨.ofUInt32 0x3000, #[9, 9, 9, 9]⟩,
      ⟨.ofUInt32 0x6000, .replicate 4 7⟩, ⟨.ofUInt32 0x7000, .replicate 120 7⟩]⟩
    modules := ⟨[⟨0, 8, 1, 2, .consumed⟩]⟩ }

theorem sample_determined :
    (sampleElsewhere.prepare 0x2000).2 = .ok ⟨0x7000, 0x100, bootMagic, 0x5000⟩ := by
  have hd : descriptorAt (sample 0x2000).memory 0x2000 = .ok ⟨sampleDescriptor⟩ := by
    decide +kernel
  have hd' : descriptorAt sampleElsewhere.memory 0x2000 = .ok ⟨sampleDescriptor⟩ := by
    decide +kernel
  have hm' : sampleElsewhere.memory.Disjoint := by decide +kernel
  have hlayout : sampleElsewhere.memory.layout = (sample 0x2000).memory.layout := by
    decide +kernel
  have hkernel : ∀ k ∈ (Descriptor.modules ⟨sampleDescriptor⟩)[0]?,
      Memory.Agree k.2.range (sample 0x2000).memory sampleElsewhere.memory := by decide +kernel
  obtain ⟨hsame, -⟩ := prepare_determined sample_disjoint hlayout ⟨rfl, rfl, rfl, rfl⟩
    (sameDescriptor_of_ok sample_disjoint hm' hd hd') fun d k hd₁ hk => by
      rw [hd, Except.ok.injEq] at hd₁
      rw [← hd₁] at hk
      exact hkernel k hk
  obtain ⟨l₁, hprepare⟩ := sample_prepare
  rw [hsame, hprepare]

end ChainBoot.Loader
