import ChainBoot.Proofs.Settled

/-!
# How long a run takes

A run goes round two circles, one of them back to the collection, and what it reads there it has
written itself.  Every phase uses up some of `Loader.budget`, though, whatever was read.  A
collection goes round a third one: it takes out command lines until the walk has none, one for each
that the walk had.

* `Loader.within`         a run that is cut after a number of phases;
* `within_eq`             a run is over behind the last of its phases, and not before;
* `length_visits_le`      the budget bounds the number of phases;
* `dropCmdlines_offsets`  the command lines are taken out in the order of the walk;
* `collect_leaves`        a collection leaves in memory what they were taken out of;
* `prepare_ends`          the bounds for a loader that was used before.
-/

namespace ChainBoot

/-! ## taking out the command lines -/

namespace Descriptor

variable {d : Descriptor} {t : Tag}

/-- where the command lines of the walk stand, in order -/
def cmdlineOffsets (d : Descriptor) : List Nat := (d.tags.filter Tag.isCmdline).map Tag.offset

theorem length_cmdlineOffsets (d : Descriptor) :
    d.cmdlineOffsets.length = d.tags.countP Tag.isCmdline := by
  unfold cmdlineOffsets
  rw [List.length_map, List.countP_eq_length_filter]

theorem cmdlineOffsets_of_clean (h : d.tags.find? Tag.isCmdline = none) :
    d.cmdlineOffsets = [] := by
  unfold cmdlineOffsets
  rw [List.filter_eq_nil_iff.mpr (List.find?_eq_none.mp h)]
  rfl

/-- without the first command line, the others are left where they are -/
theorem cmdlineOffsets_of_find? (hfind : d.tags.find? Tag.isCmdline = some t) :
    d.cmdlineOffsets
      = t.offset :: (d.overwrite t.offset (Bytes.le32 TagType.invalid)).cmdlineOffsets := by
  obtain ⟨hcmd, pre, post, hsplit, hpre⟩ := List.find?_eq_some_iff_append.mp hfind
  have htags : (d.overwrite t.offset (Bytes.le32 TagType.invalid)).tags
      = d.tags.map fun u => if u.offset = t.offset then { u with type := TagType.invalid } else u :=
    tags_retype (List.mem_of_find?_eq_some hfind) (by decide)
  -- at the place of the tag there is another one with the same offset
  have hplace : (d.tags.map fun u =>
        if u.offset = t.offset then { u with type := TagType.invalid } else u)
      = pre ++ [{ t with type := TagType.invalid }] ++ post := by
    rw [← flatMap_replace hsplit, ← map_replace_eq_flatMap]
    refine List.map_congr_left fun u hu => ?_
    by_cases ho : u.offset = t.offset
    · rw [if_pos ho, if_pos ho, offset_inj hu (List.mem_of_find?_eq_some hfind) ho]
    · rw [if_neg ho, if_neg ho]
  have hfront : pre.filter Tag.isCmdline = [] := by
    rw [List.filter_eq_nil_iff]
    intro u hu
    simpa using hpre u hu
  unfold cmdlineOffsets
  rw [htags, hplace, hsplit, List.filter_append, List.filter_append, List.filter_append, hfront,
    List.filter_cons_of_pos hcmd, List.filter_cons_of_neg Bool.false_ne_true]
  rfl

/-- **The command lines go one by one, each is on the walk when it goes, and none is left.** -/
theorem dropCmdlines_offsets (d : Descriptor) :
    ∃ r, d.dropCmdlines = .ok r ∧ r.offsets = d.cmdlineOffsets
      ∧ r.offsets.foldlM Descriptor.invalidate d = .ok r.descriptor := by
  fun_induction dropCmdlines d with
  | case1 d hfind => exact ⟨_, rfl, (cmdlineOffsets_of_clean hfind).symm, rfl⟩
  | case2 d t hfind e herr =>
    rw [invalidate_of_mem (List.mem_of_find?_eq_some hfind)] at herr
    cases herr
  | case3 d t hfind d' hd' ih =>
    obtain ⟨r, hr, hoffsets, hfold⟩ := ih
    rw [hr]
    refine ⟨_, rfl, ?_, ?_⟩
    · show t.offset :: r.offsets = _
      rw [hoffsets, eq_of_invalidate hd', cmdlineOffsets_of_find? hfind]
    · show (t.offset :: r.offsets).foldlM Descriptor.invalidate d = .ok r.descriptor
      rw [List.foldlM_cons, hd']
      exact hfold

end Descriptor

/-! ## cutting a run -/

namespace Loader

variable {l : Loader}

/-- what a run comes to if it is over after `n` phases -/
def within : (n : Nat) → Loader → Phase → Option (Loader × Except LoadError HandOff)
  | 0, _, _ => none
  | n + 1, l, p =>
    match l.step p with
    | (l', .next p') => within n l' p'
    | (l', .done ho) => some (l', .ok ho)
    | (l', .failed e) => some (l', .error e)

theorem within_of_next {l' : Loader} {p p' : Phase} (h : l.step p = (l', .next p')) (n : Nat) :
    within (n + 1) l p = within n l' p' := by
  rw [within, h]

/-- **A run is over behind the last of its phases, and not before.** -/
theorem within_eq (l : Loader) (p : Phase) (n : Nat) :
    within n l p = if (l.visits p).length ≤ n then some (l.run p) else none := by
  induction l, p using run_induction generalizing n with
  | next l p l' p' hnext ih =>
    rw [visits_of_next hnext, run_of_next hnext, List.length_cons]
    cases n with
    | zero => rfl
    | succ n =>
      rw [within_of_next hnext, ih]
      simp
  | done l p l' ho hdone =>
    rw [visits_of_done hdone, run_of_done hdone]
    cases n with
    | zero => rfl
    | succ n =>
      rw [within, hdone]
      simp
  | failed l p l' e hfailed =>
    rw [visits_of_failed hfailed, run_of_failed hfailed]
    cases n with
    | zero => rfl
    | succ n =>
      rw [within, hfailed]
      simp

theorem budget_pos (l : Loader) (p : Phase) : 0 < l.budget p := by
  cases p <;> simp [budget]

theorem length_visits_le (l : Loader) (p : Phase) : (l.visits p).length ≤ l.budget p := by
  induction l, p using run_induction with
  | next l p l' p' hnext ih =>
    have hlt := budget_step hnext
    rw [visits_of_next hnext, List.length_cons]
    omega
  | done l p l' ho hdone =>
    rw [visits_of_done hdone]
    exact l.budget_pos p
  | failed l p l' e hfailed =>
    rw [visits_of_failed hfailed]
    exact l.budget_pos p

/-! ## a loader that was used before -/

theorem counters_le (memory : Memory) (image : Range) (physMax : Address) (rs : List Request) :
    ((fresh memory image physMax).after rs).descriptorMoves ≤ 4
      ∧ ((fresh memory image physMax).after rs).moduleMoves ≤ 64 := by
  obtain ⟨hend, -⟩ := (ratchet_fresh memory image physMax).history rs
  exact ⟨hend.few_descriptorMoves, hend.few_moduleMoves⟩

/-- **A collection leaves the descriptor without its command lines, whatever comes of it.** -/
theorem collect_leaves {d : Descriptor} (hd : descriptorAt l.memory l.descriptor = .ok d) :
    ∃ r, d.dropCmdlines = .ok r ∧ d.Retired r.descriptor
      ∧ l.memory.write l.descriptor r.descriptor.bytes = .ok l.collect.1.memory
      ∧ (l.memory.Disjoint →
        descriptorAt l.collect.1.memory l.descriptor = .ok r.descriptor) := by
  obtain ⟨r, hr, hret⟩ := d.dropCmdlines_retired
  obtain ⟨m, hw⟩ := exists_write_of_descriptorAt hd hret.size
  have hmemory : l.collect.1.memory = m := by rw [collect_of_write hd hr hw]
  rw [hmemory]
  refine ⟨r, hr, hret, hw, fun hm => ?_⟩
  obtain ⟨hparse, -⟩ := (descriptorAt_eq_ok_iff hm).mp hd
  obtain ⟨m', hw', -, hstored⟩ := descriptorAt_write hm hd (hret.parse hparse) hret.size
  rw [hw, Except.ok.injEq] at hw'
  rw [hw']
  exact hstored

/-- **A run is over after at most `81` phases, three less for each descriptor move and one less for
each module move that the loader made before.**  A collection takes out as many command lines as
the walk has, one by one, and what it leaves in memory has none. -/
theorem prepare_ends {memory : Memory} {image : Range} {physMax : Address} {rs : List Request}
    (h : l = (fresh memory image physMax).after rs) (a : Address) :
    within (81 - 3 * l.descriptorMoves - l.moduleMoves) (l.aim a) .collecting
        = some (l.prepare a)
      ∧ (l.trace a).length ≤ 81 - 3 * l.descriptorMoves - l.moduleMoves
      ∧ 3 * l.descriptorMoves + l.moduleMoves ≤ 76
      ∧ ∀ v ∈ l.trace a, v.1 = .collecting →
        ∀ d, descriptorAt v.2.memory v.2.descriptor = .ok d →
          ∃ r, d.dropCmdlines = .ok r ∧ r.offsets.length = d.tags.countP Tag.isCmdline
            ∧ r.offsets = d.cmdlineOffsets
            ∧ r.offsets.foldlM Descriptor.invalidate d = .ok r.descriptor
            ∧ (∀ t ∈ r.descriptor.tags, t.isCmdline = false)
            ∧ v.2.memory.write v.2.descriptor r.descriptor.bytes = .ok (v.2.step v.1).1.memory
            ∧ (memory.Disjoint →
              descriptorAt (v.2.step v.1).1.memory v.2.descriptor = .ok r.descriptor) := by
  obtain ⟨hdescriptor, hmodule⟩ := counters_le memory image physMax rs
  rw [← h] at hdescriptor hmodule
  have hlen : (l.trace a).length ≤ (l.aim a).budget .collecting := length_visits_le _ _
  have hbudget : (l.aim a).budget .collecting
      = 3 * (4 - l.descriptorMoves) + (64 - l.moduleMoves) + 5 := rfl
  have hbound : (l.trace a).length ≤ 81 - 3 * l.descriptorMoves - l.moduleMoves := by omega
  refine ⟨?_, hbound, by omega, fun v hv hphase d hd => ?_⟩
  · rw [within_eq]
    exact if_pos hbound
  · obtain ⟨r, hr, hret, hwrite, hstored⟩ := collect_leaves hd
    obtain ⟨r', hr', hoffsets, hfold⟩ := d.dropCmdlines_offsets
    obtain rfl : r = r' := by
      rw [hr, Except.ok.injEq] at hr'
      exact hr'
    have hstep : v.2.step v.1 = v.2.collect := by
      rw [hphase]
      rfl
    rw [hstep]
    refine ⟨r, hr, by rw [hoffsets, Descriptor.length_cmdlineOffsets], hoffsets, hfold,
      hret.clean, hwrite, fun hm => hstored ?_⟩
    -- no request has moved a bank, and no phase of this run either
    have hafter : l.memory.Disjoint := by
      rw [h]
      exact after_disjoint (l := fresh memory image physMax) hm rs
    exact disjoint_of_mem_trace hafter hv (by rw [hphase]; exact fun ho hho => nomatch hho)

theorem sample_ends : within 81 ((sample 0x2000).aim 0x2000) .collecting
      = some ((sample 0x2000).prepare 0x2000)
    ∧ ∃ r, Descriptor.dropCmdlines ⟨sampleDescriptor⟩ = .ok r ∧ r.offsets = [8]
      ∧ [8].foldlM Descriptor.invalidate ⟨sampleDescriptor⟩ = .ok r.descriptor
      ∧ descriptorAt (((sample 0x2000).aim 0x2000).step .collecting).1.memory 0x2000
        = .ok r.descriptor := by
  have hfresh : sample 0x2000
      = (fresh (sample 0x2000).memory (.span .zero 0) (.ofUInt32 0x8000)).after [] := rfl
  have hd : descriptorAt ((sample 0x2000).aim 0x2000).memory 0x2000 = .ok ⟨sampleDescriptor⟩ := by
    decide +kernel
  have hmem : (.collecting, (sample 0x2000).aim 0x2000) ∈ (sample 0x2000).trace 0x2000 := by
    unfold trace
    rw [visits_eq]
    split <;> exact List.mem_cons_self ..
  have hoffsets : Descriptor.cmdlineOffsets ⟨sampleDescriptor⟩ = [8] := by decide +kernel
  obtain ⟨hwithin, -, -, hcollect⟩ := prepare_ends hfresh 0x2000
  obtain ⟨r, hr, -, hlist, hfold, -, -, hstored⟩ := hcollect _ hmem rfl _ hd
  rw [hoffsets] at hlist
  rw [hlist] at hfold
  have hleft := hstored sample_disjoint
  dsimp only at hleft
  exact ⟨hwithin, r, hr, hlist, hfold, hleft⟩

end Loader

end ChainBoot
