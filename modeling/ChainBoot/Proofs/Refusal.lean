import ChainBoot.Proofs.Settled

/-!
# Why a run fails

Behind a collection a phase that fails leaves the loader as it was, and `Loader.Refused` lists all
the reasons it can have: it was refused before it wrote anything.  The edits of the descriptor are
not among them, since the tag offsets of the table are offsets of module tags.

* `step_refused`         the reasons of one phase;
* `collect_uncollected`  the reasons of a collection;
* `Loader.Due`           the next module to be moved; `Due.exists_bounds` shows that the bounds of
                         its new place fit their fields;
* `requests_refused`     the reasons of whole runs.
-/

namespace ChainBoot.Loader

variable {l l' : Loader} {d : Descriptor} {p : Phase} {e : LoadError}

/-! ## the next module -/

/-- the module of record `r` is the next to be moved, and `x` is the descriptor that says where
there is room -/
structure Due (l : Loader) (r : ModuleRecord) (x : Located) : Prop where
  in_way : ∃ kernel, l.kernelImage = .ok kernel
    ∧ l.modules.conflict? kernel.segments = some r.handle
  record : l.modules.get? r.handle = some r
  located : l.located = .ok x

theorem exists_moduleBounds? {a : Address} {n : Nat} (hn : 0 < n) (h : a.val + n ≤ 0x100000000) :
    ∃ first last, moduleBounds? a n = some (first, last) ∧ first.toNat = a.val
      ∧ last.toNat = a.val + (n - 1) := by
  have hb : a.val + (n - 1) < 0x10000000000000000 := by omega
  let b : Address := ⟨a.val + (n - 1), hb⟩
  have hadd : a.add? (n - 1) = some b := (Address.add?_eq_some_iff ..).mpr rfl
  have hfirst : (UInt32.ofNat a.val).toNat = a.val :=
    UInt32.toNat_ofNat_of_lt' (show a.val < 0x100000000 by omega)
  have hlast : (UInt32.ofNat b.val).toNat = b.val :=
    UInt32.toNat_ofNat_of_lt' (show a.val + (n - 1) < 0x100000000 by omega)
  refine ⟨UInt32.ofNat a.val, UInt32.ofNat b.val, ?_, hfirst, hlast⟩
  have ha32 : a.toUInt32? = some (UInt32.ofNat a.val) :=
    (Address.toUInt32?_eq_some_iff ..).mpr hfirst
  have hb32 : b.toUInt32? = some (UInt32.ofNat b.val) :=
    (Address.toUInt32?_eq_some_iff ..).mpr hlast
  unfold moduleBounds?
  rw [hadd]
  dsimp only
  rw [ha32, hb32]

theorem Collected.exists_in_way (h : l.Collected d) {segments : List Elf.Segment} {i : Nat}
    (hconflict : l.modules.conflict? segments = some i) :
    ∃ r, l.modules.get? i = some r ∧ r.handle = i ∧ 0 < r.size := by
  rw [h.table] at hconflict
  obtain ⟨k, hk, -, s, -, -, hmeet⟩ := ModuleTable.conflict?_ofModules hconflict
  refine ⟨.ofModule i k, ?_, rfl, Range.size_pos_of_overlaps hmeet⟩
  rw [h.get?_eq, hk, Option.map_some]

theorem Due.size_pos {r : ModuleRecord} {x : Located} (hdue : l.Due r x) (h : l.Collected d) :
    0 < r.size := by
  obtain ⟨kernel, -, hconflict⟩ := hdue.in_way
  obtain ⟨r', hr', -, hpos⟩ := h.exists_in_way hconflict
  rw [hdue.record, Option.some.injEq] at hr'
  rw [hr']
  exact hpos

/-- **The bounds of the next module's new place fit their fields.** -/
theorem Due.exists_bounds {r : ModuleRecord} {x : Located} {target : Address} (hdue : l.Due r x)
    (h : l.Collected d) (hlow : l.ceiling.val ≤ 0x100000000)
    (hfound : x.findRegion l.image r.size .highest l.ceiling = some target) :
    1 ≤ r.size ∧ ∃ first last, moduleBounds? target r.size = some (first, last)
      ∧ first.toNat = target.val ∧ last.toNat = target.val + (r.size - 1) := by
  have hpos := hdue.size_pos h
  have hbelow := (Located.free_of_findRegion hfound).below
  exact ⟨hpos, exists_moduleBounds? hpos (by omega)⟩

/-! ## the reasons of a phase -/

/-- why a phase fails, where `d` is the descriptor in memory -/
inductive Refused (l : Loader) (d : Descriptor) : Phase → LoadError → Prop
  /-- no bank has the kernel's image -/
  | unreadable {p : Phase} {k : Nat × BootModule} :
      p = .validatingPlacement ∨ p = .relocatingModules → d.modules[0]? = some k →
      ¬ l.memory.Readable k.2.range → Refused l d p (.memory k.2.range)
  /-- the kernel's image does not parse -/
  | malformed {p : Phase} {k : Nat × BootModule} {bs : Bytes} {e : Elf.Error} :
      p = .validatingPlacement ∨ p = .relocatingModules → d.modules[0]? = some k →
      l.memory.read k.2.range = .ok bs → Elf.Header.parse bs = .error e → Refused l d p (.elf e)
  | outOfRam {kernel : Elf.Header} {segment : Range} : l.kernelImage = .ok kernel →
      (l.place d).validate l.image kernel = .error (.outOfRam segment) →
      Refused l d .validatingPlacement (.outOfRam segment)
  | descriptorLimit : 4 ≤ l.descriptorMoves →
      Refused l d .relocatingDescriptor (.relocationLimit .descriptor 4)
  | noDescriptorRoom : (l.place d).findRegion l.image d.size .highest l.ceiling = none →
      Refused l d .relocatingDescriptor (.noRegion .descriptor d.size)
  | moduleLimit : 64 ≤ l.moduleMoves →
      Refused l d .relocatingModules (.relocationLimit .module 64)
  | noModuleRoom {r : ModuleRecord} : l.Due r (l.place d) →
      (l.place d).findRegion l.image r.size .highest l.ceiling = none →
      Refused l d .relocatingModules (.noRegion .module r.size)
  /-- no bank has what is to be copied, or the place it is to go to -/
  | uncopied {p : Phase} {source range : Range} {target : Address} :
      p = .relocatingDescriptor ∨ p = .relocatingModules →
      l.memory.copy source target = .error range → Refused l d p (.memory range)
  | noPage : (l.place d).findRegion l.image 0x1000 .highest l.ceiling = none →
      Refused l d .finalizing (.noRegion .jumpCode 0x1000)

theorem refused_of_kernelImage (h : l.Collected d)
    (hp : p = .validatingPlacement ∨ p = .relocatingModules) (he : l.kernelImage = .error e) :
    l.Refused d p e := by
  obtain ⟨k, hk⟩ := h.exists_kernel
  have hrange : (ModuleRecord.ofModule 0 k).range = k.2.range := rfl
  unfold kernelImage at he
  rw [h.kernel?_eq hk] at he
  dsimp only at he
  rw [hrange] at he
  by_cases hread : l.memory.Readable k.2.range
  · obtain ⟨bs, hbs⟩ := (Memory.exists_read_iff ..).mpr hread
    rw [hbs] at he
    obtain ⟨e', hparse, rfl⟩ := mapError_eq_error_iff.mp he
    exact .malformed hp hk hbs hparse
  · rw [Memory.read_of_not_readable hread] at he
    cases he
    exact .unreadable hp hk hread

theorem refused_of_placementVerdict (h : l.Collected d) (he : l.placementVerdict = .error e) :
    l.Refused d .validatingPlacement e := by
  unfold placementVerdict at he
  split at he
  · rename_i e' hkernel
    cases he
    exact refused_of_kernelImage h (.inl rfl) hkernel
  · rename_i kernel hkernel
    rw [h.located_eq] at he
    dsimp only at he
    split at he
    · cases he
    · cases he
    · rename_i segment hverdict
      cases he
      exact .outOfRam hkernel hverdict

theorem refused_of_planDescriptorMove (h : l.Collected d) (he : l.planDescriptorMove = .error e) :
    l.Refused d .relocatingDescriptor e := by
  have hsize : (l.place d).extent.size = d.size := h.size_extent
  unfold planDescriptorMove at he
  split at he
  · rename_i hlimit
    cases he
    exact .descriptorLimit hlimit
  · rw [h.located_eq] at he
    dsimp only at he
    rw [hsize] at he
    split at he
    · rename_i hnone
      cases he
      exact .noDescriptorRoom hnone
    · cases he

theorem refused_of_planModuleMove (h : l.Collected d) (hlow : l.ceiling.val ≤ 0x100000000)
    (he : l.planModuleMove = .error e) : l.Refused d .relocatingModules e := by
  unfold planModuleMove at he
  split at he
  · rename_i e' hkernel
    cases he
    exact refused_of_kernelImage h (.inr rfl) hkernel
  · rename_i kernel hkernel
    split at he
    · cases he
    · rename_i i hconflict
      split at he
      · rename_i hlimit
        cases he
        exact .moduleLimit hlimit
      · obtain ⟨r, hr, rfl, -⟩ := h.exists_in_way hconflict
        have hdue : l.Due r (l.place d) := ⟨⟨kernel, hkernel, hconflict⟩, hr, h.located_eq⟩
        rw [hr, h.located_eq] at he
        dsimp only at he
        split at he
        · rename_i hnone
          cases he
          exact .noModuleRoom hdue hnone
        · rename_i target hfound
          -- where a place was found, its bounds fit
          obtain ⟨-, first, last, hbounds, -, -⟩ := hdue.exists_bounds h hlow hfound
          rw [hbounds] at he
          cases he

theorem refused_of_planJumpCode (h : l.Collected d) (he : l.planJumpCode = .error e) :
    l.Refused d .finalizing e := by
  unfold planJumpCode at he
  rw [h.located_eq] at he
  dsimp only at he
  split at he
  · rename_i hnone
    cases he
    exact .noPage hnone
  · cases he

theorem refused_of_moveDescriptor (h : l.Collected d)
    (hfailed : l.moveDescriptor = (l', .failed e)) : l.Refused d .relocatingDescriptor e := by
  cases hplan : l.planDescriptorMove with
  | error e' =>
    cases (moveDescriptor_of_error hplan).symm.trans hfailed
    exact refused_of_planDescriptorMove h hplan
  | ok move =>
    cases hcopy : l.memory.copy move.source move.target with
    | error r =>
      cases (moveDescriptor_of_refused hplan hcopy).symm.trans hfailed
      exact .uncopied (.inl rfl) hcopy
    | ok memory =>
      obtain ⟨l₁, hmoved, -⟩ := moveDescriptor_spec h hplan hcopy
      cases hmoved.symm.trans hfailed

theorem refused_of_moveModule (h : l.Collected d) (hlow : l.ceiling.val ≤ 0x100000000)
    (hfailed : l.moveModule = (l', .failed e)) : l.Refused d .relocatingModules e := by
  cases hplan : l.planModuleMove with
  | error e' =>
    cases (moveModule_of_error hplan).symm.trans hfailed
    exact refused_of_planModuleMove h hlow hplan
  | ok planned =>
    cases planned with
    | none => cases (moveModule_of_none hplan).symm.trans hfailed
    | some move =>
      cases hcopy : l.memory.copy move.source move.target with
      | error r =>
        cases (moveModule_of_refused hplan hcopy).symm.trans hfailed
        exact .uncopied (.inr rfl) hcopy
      | ok copied =>
        -- behind the copy nothing can fail
        obtain ⟨k, l₁, hmoved, -⟩ := moveModule_spec h hplan hcopy
        cases hmoved.symm.trans hfailed

theorem refused_of_finalize (h : l.Collected d) (hfailed : l.finalize = (l', .failed e)) :
    l.Refused d .finalizing e := by
  cases hplan : l.planJumpCode with
  | error e' =>
    cases (finalize_of_error h hplan).symm.trans hfailed
    exact refused_of_planJumpCode h hplan
  | ok a =>
    obtain ⟨k, l₁, d₁, ho, hfinal, -⟩ := finalize_spec h hplan
    cases hfinal.symm.trans hfailed

/-- **A phase that fails leaves the loader as it was, and there is a reason for it.** -/
theorem step_refused (h : l.Collected d) (hlow : l.ceiling.val ≤ 0x100000000)
    (hfailed : l.step p = (l', .failed e)) : l' = l ∧ l.Refused d p e := by
  have hsame : l' = l := by
    have hstep := step_of_collected h p
    rw [hfailed] at hstep
    cases hstep
    rfl
  refine ⟨hsame, ?_⟩
  cases p with
  | collecting =>
    have hnext : l.step .collecting = (l, .next .validatingPlacement) := h.collect
    cases hnext.symm.trans hfailed
  | validatingPlacement =>
    have hfailed : l.validatePlacement = (l', .failed e) := hfailed
    unfold validatePlacement at hfailed
    split at hfailed
    · rename_i hverdict
      cases hfailed
      exact refused_of_placementVerdict h hverdict
    · cases hfailed
  | relocatingDescriptor => exact refused_of_moveDescriptor h hfailed
  | relocatingModules => exact refused_of_moveModule h hlow hfailed
  | finalizing => exact refused_of_finalize h hfailed
  | handOff ho => cases hfailed

/-! ## the reasons of a collection -/

/-- why a collection fails: the descriptor cannot be read, or it lists no module or too many -/
inductive Uncollected : LoadError → Prop
  | unreadable (range : Range) : Uncollected (.memory range)
  | tooShort : Uncollected (.descriptor .tooShort)
  | badTotalSize (total : UInt32) (available : Nat) :
      Uncollected (.descriptor (.badTotalSize total available))
  | capacityExceeded : Uncollected .capacityExceeded
  | noModule : Uncollected .noModule

theorem Unreadable.uncollected {m : Memory} {a : Address} (h : Unreadable m a e) :
    Uncollected e := by
  cases h with
  | header => exact .unreadable _
  | cutHeader => exact .tooShort
  | extent => exact .unreadable _
  | cutExtent => exact .tooShort
  | badTotalSize => exact .badTotalSize _ _

/-- **A collection fails where it has no descriptor or no table to work on.** -/
theorem collect_uncollected (hfailed : l.collect.2 = .failed e) : Uncollected e := by
  unfold collect at hfailed
  dsimp only at hfailed
  split at hfailed
  · rename_i hd
    cases hfailed
    exact (unreadable_iff.mpr hd).uncollected
  · rename_i d _
    -- taking out the command lines is never refused
    obtain ⟨dropped, hdropped, -⟩ := d.dropCmdlines_retired
    rw [hdropped] at hfailed
    dsimp only at hfailed
    split at hfailed
    · cases hfailed
      exact .unreadable _
    · split at hfailed
      · cases hfailed
        exact .capacityExceeded
      · split at hfailed
        · cases hfailed
          exact .noModule
        · cases hfailed

/-! ## whole runs -/

/-- a run fails in its first collection, or in a later phase that leaves the loader as it was -/
theorem prepare_refused (hm : l.memory.Disjoint) {a : Address}
    (hlow : (l.prepare a).1.ceiling.val ≤ 0x100000000) (he : (l.prepare a).2 = .error e) :
    Uncollected e ∨ ∃ d q, (l.prepare a).1.Refused d q e := by
  rcases collect_cases (l := l.aim a) hm with ⟨l', e', hc⟩ | ⟨d, l', d', hc, hlisted⟩
  · left
    have hrun : l.prepare a = (l', .error e') := run_of_failed (p := .collecting) hc
    rw [hrun] at he
    cases he
    exact collect_uncollected (congrArg Prod.snd hc)
  · right
    have hrun : l.prepare a = l'.run .validatingPlacement := run_of_next (p := .collecting) hc
    rw [hrun] at he hlow ⊢
    obtain ⟨d₁, q, hcoll, hfailed⟩ := hlisted.settled.failed e he
    exact ⟨d₁, q, (step_refused hcoll hlow hfailed).2⟩

/-- the only errors of a descriptor are those of its header -/
theorem header_error_of_prepare (hm : l.memory.Disjoint) {a : Address}
    (hlow : (l.prepare a).1.ceiling.val ≤ 0x100000000) {e : DescriptorError}
    (he : (l.prepare a).2 = .error (.descriptor e)) :
    e = .tooShort ∨ ∃ total available, e = .badTotalSize total available := by
  rcases prepare_refused hm hlow he with hfirst | ⟨d, q, hlater⟩
  · cases hfirst with
    | tooShort => exact .inl rfl
    | badTotalSize total available => exact .inr ⟨total, available, rfl⟩
  · cases hlater

theorem exists_due_of_noRegion (hm : l.memory.Disjoint) {a : Address}
    (hlow : (l.prepare a).1.ceiling.val ≤ 0x100000000) {n : Nat}
    (he : (l.prepare a).2 = .error (.noRegion .module n)) :
    ∃ r x, (l.prepare a).1.Due r x ∧ r.size = n
      ∧ x.findRegion (l.prepare a).1.image n .highest (l.prepare a).1.ceiling = none := by
  rcases prepare_refused hm hlow he with hfirst | ⟨d, q, hlater⟩
  · cases hfirst
  · cases hlater with
    | noModuleRoom hdue hnone => exact ⟨_, _, hdue, rfl, hnone⟩

/-- **Whatever a loader was asked for, a phase behind a collection fails for a stated reason and
changes nothing.**  No edit of a descriptor is refused, and a module is refused a place only where
there is none: the arithmetic of its bounds never fails. -/
theorem requests_refused (memory : Memory) (image : Range) (physMax : Address)
    (hm : memory.Disjoint) (rs : List Request) :
    (∀ v ∈ (fresh memory image physMax).history rs, v.1.isInner = true →
        ∀ l' e, v.2.step v.1 = (l', .failed e) → l' = v.2
          ∧ ∃ d, descriptorAt v.2.memory v.2.descriptor = .ok d ∧ v.2.Refused d v.1 e)
      ∧ (∀ v ∈ (fresh memory image physMax).history rs, v.1 = .relocatingModules →
        ∀ r x target, v.2.Due r x →
          x.findRegion v.2.image r.size .highest v.2.ceiling = some target →
          1 ≤ r.size ∧ ∃ first last, moduleBounds? target r.size = some (first, last)
            ∧ first.toNat = target.val ∧ last.toNat = target.val + (r.size - 1))
      ∧ ∀ a : Address,
        (∀ e, (((fresh memory image physMax).after rs).prepare a).2 = .error (.descriptor e) →
          e = .tooShort ∨ ∃ total available, e = .badTotalSize total available)
        ∧ ∀ n, (((fresh memory image physMax).after rs).prepare a).2
            = .error (.noRegion .module n) →
          ∃ r x, (((fresh memory image physMax).after rs).prepare a).1.Due r x ∧ r.size = n
            ∧ x.findRegion (((fresh memory image physMax).after rs).prepare a).1.image n .highest
              (((fresh memory image physMax).after rs).prepare a).1.ceiling = none := by
  obtain ⟨-, hlow⟩ := ceiling_le_fourGiB memory image physMax rs
  have hafter : ((fresh memory image physMax).after rs).memory.Disjoint :=
    after_disjoint (l := fresh memory image physMax) hm rs
  have hend : ∀ a : Address,
      (((fresh memory image physMax).after rs).prepare a).1.ceiling.val ≤ 0x100000000 := by
    intro a
    have hlast := (ceiling_le_fourGiB memory image physMax (rs ++ [.prepare a])).1
    rw [after_concat] at hlast
    exact hlast
  refine ⟨fun v hv hinner l' e hfailed => ?_, fun v hv hp r x target hdue hfound => ?_,
    fun a => ⟨fun e he => header_error_of_prepare hafter (hend a) he,
      fun n he => exists_due_of_noRegion hafter (hend a) he⟩⟩
  · obtain ⟨d, hcoll⟩ :=
      exists_collected_of_mem_history (l := fresh memory image physMax) hm hv hinner
    obtain ⟨hsame, hrefused⟩ := step_refused hcoll (hlow v hv) hfailed
    exact ⟨hsame, d, hcoll.stored, hrefused⟩
  · have hinner : v.1.isInner = true := by rw [hp]; rfl
    obtain ⟨d, hcoll⟩ :=
      exists_collected_of_mem_history (l := fresh memory image physMax) hm hv hinner
    exact hdue.exists_bounds hcoll (hlow v hv) hfound

/-- a segment meets the module at `0x3000`, and below a ceiling of `0x3000` there is no page for
its four bytes -/
theorem sample_refused : (sample 0x3000).memory.Disjoint
    ∧ ((fresh (sample 0x3000).memory (.span .zero 0) 0x3000).prepare 0x2000).2
      = .error (.noRegion .module 4)
    ∧ ∃ r x, ((fresh (sample 0x3000).memory (.span .zero 0) 0x3000).prepare 0x2000).1.Due r x
      ∧ r.size = 4
      ∧ x.findRegion (.span .zero 0) 4 .highest 0x3000 = none := by
  have hm : (sample 0x3000).memory.Disjoint := by decide +kernel
  have hrun : ((fresh (sample 0x3000).memory (.span .zero 0) 0x3000).prepare 0x2000).2
        = .error (.noRegion .module 4)
      ∧ ((fresh (sample 0x3000).memory (.span .zero 0) 0x3000).prepare 0x2000).1.image
        = .span .zero 0
      ∧ ((fresh (sample 0x3000).memory (.span .zero 0) 0x3000).prepare 0x2000).1.ceiling
        = 0x3000 := by
    decide +kernel
  obtain ⟨hfailed, himage, hceiling⟩ := hrun
  obtain ⟨-, -, hprepare⟩ := requests_refused (sample 0x3000).memory (.span .zero 0) 0x3000 hm []
  obtain ⟨r, x, hdue, hsize, hnone⟩ := (hprepare 0x2000).2 4 hfailed
  have hafter : (fresh (sample 0x3000).memory (.span .zero 0) 0x3000).after []
      = fresh (sample 0x3000).memory (.span .zero 0) 0x3000 := rfl
  rw [hafter, himage, hceiling] at hnone
  exact ⟨hm, hfailed, r, x, hdue, hsize, hnone⟩

end ChainBoot.Loader
