import ChainBoot.Proofs.Kernel

/-!
# The bytes of the modules

A module that can be read and shares no byte with the descriptor keeps its bytes, wherever a run
moves it and however the run ends: `Holds` is preserved by every move, because every destination is
free and the table follows the descriptor.  A module that no segment meets is not moved at all.

* `DescriptorMoves.holds`, `ModuleMoves.holds`     the bytes of a module;
* `ModuleMoves.listed_of_clear`                    the bounds of a module that is not in the way;
* `prepare_contents`                               both, for every run behind its first collection.
-/

namespace ChainBoot.Loader

variable {l l' : Loader} {d d' : Descriptor} {i j : Nat} {p m k : Nat × BootModule} {q : BootModule}
  {bs : Bytes}

/-- the module at place `j` holds these bytes, and shares none with the descriptor -/
structure Holds (l : Loader) (d : Descriptor) (j : Nat) (m : Nat × BootModule) (bs : Bytes) : Prop
    where
  listed : d.modules[j]? = some m
  read : l.memory.read m.2.range = .ok bs
  apart : m.2.range.overlaps (extentAt l.descriptor d) = false

/-! ## one phase -/

theorem Listed.holds (h : l.Listed d l' d') (hm : l.memory.Disjoint) (hold : l.Holds d j m bs) :
    l'.Holds d' j m bs where
  listed := by rw [h.retired.modules, hold.listed]
  read := by
    rw [h.frame.read hm fun r hr => ?_, hold.read]
    rw [List.mem_singleton.mp hr]
    exact hold.apart
  apart := by
    have hdesc : l'.descriptor = l.descriptor := by rw [h.state]
    rw [hdesc, extentAt_congr h.retired.size]
    exact hold.apart

theorem DescriptorMoved.holds (h : l.DescriptorMoved d l') (hl : l.Collected d)
    (hold : l.Holds d j m bs) : l'.Holds d j m bs := by
  have hclear : m.2.range.overlaps (extentAt l'.descriptor d) = false := by
    rw [Range.overlaps_comm]
    exact h.free.clear_module (List.mem_of_getElem? hold.listed)
  refine ⟨hold.listed, ?_, hclear⟩
  rw [h.frame.read hl.disjoint fun r hr => ?_, hold.read]
  rw [List.mem_singleton.mp hr]
  exact hclear

theorem ModuleMoved.holds (h : l.ModuleMoved d i p q l' d') (hl : l.Collected d)
    (hold : l.Holds d j m bs) : ∃ m', l'.Holds d' j m' bs := by
  by_cases hij : i = j
  · -- the module that was moved: its bytes are those that were copied
    subst hij
    have hmp : p = m := by
      have hlisted := h.listed
      rw [hold.listed] at hlisted
      exact (Option.some.inj hlisted).symm
    subst hmp
    obtain ⟨bs', hold', hnew⟩ := h.contents
    rw [hold.read, Except.ok.injEq] at hold'
    subst hold'
    obtain ⟨hi, -⟩ := List.getElem?_eq_some_iff.mp hold.listed
    refine ⟨(p.1, q), ?_, hnew, ?_⟩
    · rw [h.edited.modules, List.getElem?_set_self hi]
    · rw [h.extent]
      show q.range.overlaps _ = false
      rw [h.range]
      exact h.free.clear_extent
  · refine ⟨m, ?_, ?_, ?_⟩
    · rw [h.edited.modules, List.getElem?_set_ne hij, hold.listed]
    · rw [h.frame.read hl.disjoint fun r hr => ?_, hold.read]
      rcases List.mem_cons.mp hr with rfl | hr
      · rw [Range.overlaps_comm, h.range]
        exact h.free.clear_module (List.mem_of_getElem? hold.listed)
      · rw [List.mem_singleton.mp hr]
        exact hold.apart
    · rw [h.extent]
      exact hold.apart

theorem ModuleMoved.listed_of_clear (h : l.ModuleMoved d i p q l' d')
    (hm : d.modules[j]? = some m)
    (hclear : ∀ kernel, l.kernelImage = .ok kernel →
      ∀ s ∈ kernel.loadable, s.range.overlaps m.2.range = false) :
    d'.modules[j]? = some m := by
  have hij : i ≠ j := by
    rintro rfl
    have hlisted := h.listed
    rw [hm] at hlisted
    cases hlisted
    obtain ⟨kernel, hkernel, s, hs, hmeet⟩ := h.in_way
    rw [hclear kernel hkernel s hs] at hmeet
    cases hmeet
  rw [h.edited.modules, List.getElem?_set_ne hij, hm]

/-! ## any number of moves -/

theorem DescriptorMoves.holds (h : DescriptorMoves d l l') (hl : l.Collected d)
    (hold : l.Holds d j m bs) : l'.Holds d j m bs := by
  induction h with
  | none l => exact hold
  | move hmove _ ih => exact ih hmove.collected (hmove.holds hl hold)

theorem ModuleMoves.holds (h : ModuleMoves l d l' d') (hl : l.Collected d)
    (hold : l.Holds d j m bs) : ∃ m', l'.Holds d' j m' bs := by
  induction h generalizing m with
  | none l d => exact ⟨m, hold⟩
  | move hmove _ ih =>
    obtain ⟨m', hold'⟩ := hmove.holds hl hold
    exact ih hmove.collected hold'

theorem ModuleMoves.listed_of_clear (h : ModuleMoves l d l' d') (hl : l.Collected d)
    (ha : Apart l d) (hm : d.modules[j]? = some m)
    (hclear : ∀ kernel, l.kernelImage = .ok kernel →
      ∀ s ∈ kernel.loadable, s.range.overlaps m.2.range = false) :
    d'.modules[j]? = some m := by
  induction h with
  | none l d => exact hm
  | move hmove _ ih =>
    have hkernel := hmove.kernelImage hl ha
    refine ih hmove.collected (hmove.apart ha) (hmove.listed_of_clear hm hclear) fun kernel hk => ?_
    rw [hkernel] at hk
    exact hclear kernel hk

/-! ## where a run ends -/

/-- the table at the end of a run lists the modules as the last move left them -/
theorem exists_record {out : Loader} (hl : l.Collected d)
    (hout : out = l ∨ ∃ k d' ho, l.Finalized d k out d' ho) (hm : d.modules[j]? = some m) :
    ∃ r, out.modules.get? j = some r ∧ r.first = m.2.first ∧ r.last = m.2.last := by
  rcases hout with rfl | ⟨k, d', ho, hfinal⟩
  · refine ⟨.ofModule j m, ?_, rfl, rfl⟩
    rw [hl.get?_eq, hm]
    rfl
  · refine ⟨{ ModuleRecord.ofModule j m with state := if j = 0 then .consumed else .pending },
      ?_, rfl, rfl⟩
    rw [hfinal.table, ModuleTable.get?_consume, hm]
    rfl

theorem range_of_bounds {r : ModuleRecord} (hfirst : r.first = m.2.first)
    (hlast : r.last = m.2.last) : r.range = m.2.range := by
  unfold ModuleRecord.range BootModule.range
  rw [hfirst, hlast]

theorem read_of_holds {out : Loader} (hl : l.Collected d)
    (hout : out = l ∨ ∃ k d' ho, l.Finalized d k out d' ho) (hold : l.Holds d j m bs) :
    out.memory.read m.2.range = .ok bs := by
  rcases hout with rfl | ⟨k, d', ho, hfinal⟩
  · exact hold.read
  · rw [hfinal.frame.read hl.disjoint fun r hr => ?_, hold.read]
    rw [List.mem_singleton.mp hr]
    exact hold.apart

/-- **Modules keep their bytes, and only those in the way of the kernel are moved**, on every run
that gets past its first collection. -/
theorem prepare_contents {a : Address} (hm : l.memory.Disjoint)
    (h : (∃ ho, (l.prepare a).2 = .ok ho)
      ∨ (l.aim a).collect.2 = .next .validatingPlacement) :
    ∃ d k, descriptorAt l.memory a = .ok d ∧ d.modules[0]? = some k
      ∧ (∀ j m bs, d.modules[j]? = some m → l.memory.read m.2.range = .ok bs →
          m.2.range.overlaps (extentAt a d) = false →
          ∃ r, (l.prepare a).1.modules.get? j = some r
            ∧ (l.prepare a).1.memory.read r.range = .ok bs)
      ∧ (k.2.range.overlaps (extentAt a d) = false → ∀ j m, d.modules[j]? = some m →
          (j = 0 ∨ ∀ image kernel, l.memory.read k.2.range = .ok image →
            Elf.Header.parse image = .ok kernel →
            ∀ s ∈ kernel.loadable, s.range.overlaps m.2.range = false) →
          ∃ r, (l.prepare a).1.modules.get? j = some r
            ∧ r.first = m.2.first ∧ r.last = m.2.last) := by
  rcases prepare_cases hm a with ⟨l', e, hc, hp⟩ | ⟨d, l₁, d₁, hc, hlisted, hcourse⟩
  · rcases h with ⟨ho, ho'⟩ | hnext
    · rw [hp] at ho'
      cases ho'
    · rw [hc] at hnext
      cases hnext
  · have hl₁ := hlisted.collected
    obtain ⟨l₂, l₃, d₃, hdesc, hmods, hout⟩ := hcourse.moves
    have hl₂ := hdesc.collected hl₁
    have hl₃ := hmods.collected hl₂
    obtain ⟨k, hk₁⟩ := hl₁.exists_kernel
    have hk : d.modules[0]? = some k := by rw [← hlisted.retired.modules, hk₁]
    refine ⟨d, k, hlisted.incoming, hk, fun j m bs hj hread hapart => ?_, fun hka j m hj hfar => ?_⟩
    · have hold : (l.aim a).Holds d j m bs := ⟨hj, hread, hapart⟩
      obtain ⟨m', hold'⟩ := hmods.holds hl₂ (hdesc.holds hl₁ (hlisted.holds hm hold))
      obtain ⟨r, hr, hfirst, hlast⟩ := exists_record hl₃ hout hold'.listed
      refine ⟨r, hr, ?_⟩
      rw [range_of_bounds hfirst hlast]
      exact read_of_holds hl₃ hout hold'
    · have hj₁ : d₁.modules[j]? = some m := by rw [hlisted.retired.modules, hj]
      have hapart : KernelApart (l.aim a).memory (l.aim a).descriptor := by
        intro e k' he hk'
        rw [hlisted.incoming] at he
        cases he
        rw [hk] at hk'
        cases hk'
        exact hka
      obtain ⟨ha₂, hread₂⟩ := hdesc.read_kernel hl₁ (hlisted.apart hapart) hk₁
      have hread₁ : l₁.memory.read k.2.range = l.memory.read k.2.range :=
        hlisted.read_kernel hm hapart hk
      have hj₃ : d₃.modules[j]? = some m := by
        rcases hfar with rfl | hfar
        · rw [hmods.follows.kernel, hj₁]
        · refine hmods.listed_of_clear hl₂ ha₂ hj₁ fun kernel hkern => ?_
          obtain ⟨image, hread, hparse⟩ := (hl₂.kernelImage_eq_ok_iff hk₁ kernel).mp hkern
          exact hfar image kernel (by rw [← hread₁, ← hread₂, hread]) hparse
      exact exists_record hl₃ hout hj₃

theorem sample_contents : (sample 0x2000).memory.Disjoint
    ∧ (∃ ho, ((sample 0x2000).prepare 0x2000).2 = .ok ho)
    ∧ ∃ r, ((sample 0x2000).prepare 0x2000).1.modules.get? 1 = some r
        ∧ ((sample 0x2000).prepare 0x2000).1.memory.read r.range = .ok [1, 2, 3, 4] := by
  obtain ⟨l', h⟩ := sample_prepare
  have hok : ∃ ho, ((sample 0x2000).prepare 0x2000).2 = .ok ho := ⟨_, by rw [h]⟩
  obtain ⟨d, k, hd, -, hbytes, -⟩ := prepare_contents sample_disjoint (.inl hok)
  have hin : ∀ d ∈ (descriptorAt (sample 0x2000).memory 0x2000).toOption,
      ∃ m ∈ d.modules[1]?, (sample 0x2000).memory.read m.2.range = .ok [1, 2, 3, 4]
        ∧ m.2.range.overlaps (extentAt 0x2000 d) = false := by
    decide +kernel
  obtain ⟨m, hm, hread, hapart⟩ := hin d (by rw [hd]; rfl)
  exact ⟨sample_disjoint, hok, hbytes 1 m _ hm hread hapart⟩

end ChainBoot.Loader
