import ChainBoot.Proofs.Visits

/-!
# The ceiling over any number of runs

Every move ends below the ceiling and lowers it to its target, and no run raises it again.  So the
targets of all moves of a loader lie one below the other, over any number of requests, whether
they succeed or fail: `Loader.Ratchet`.

* `Ratchet.step`, `Ratchet.run`, `Ratchet.history`   one phase, one run, any number of requests;
* `HandOff.Fits`, `fits_of_run`                      the jump code is below the ceiling as well;
* `low_of_prepare`                                   what is handed over has addresses of 32 bits;
* `requests_ratchet`                                 a fresh loader, whatever it is asked for.
-/

namespace ChainBoot

namespace Loader

variable {l l' : Loader} {p p' : Phase} {m : Move} {ms ns : List Move} {top : Address}
  {pre post : List (Phase × Loader)} {v : Phase × Loader}

/-! ## the ceiling -/

/-- the target of the last move, or `top` if there was none -/
def lastTarget (top : Address) (ms : List Move) : Address := ms.getLast?.elim top Move.target

@[simp] theorem lastTarget_concat (top : Address) (ms : List Move) (m : Move) :
    lastTarget top (ms ++ [m]) = m.target := by
  simp [lastTarget]

/-- the loader has carried out the moves `ms`, and its ceiling was `top` before them -/
structure Ratchet (top : Address) (ms : List Move) (l : Loader) : Prop where
  aligned : ∀ m ∈ ms, pageSize ∣ m.target.val
  /-- the moves end below `top` -/
  below : ∀ m ∈ ms, m.target.val + m.size ≤ top.val
  /-- each move ends below all earlier ones -/
  descending : ms.Pairwise fun m n => n.target.val + n.size ≤ m.target.val
  ceiling : l.ceiling = lastTarget top ms
  ceiling_le_top : l.ceiling ≤ top
  ceiling_le : ∀ m ∈ ms, l.ceiling ≤ m.target
  /-- all moves are counted -/
  count : l.descriptorMoves + l.moduleMoves = ms.length
  few_descriptorMoves : l.descriptorMoves ≤ 4
  few_moduleMoves : l.moduleMoves ≤ 64

namespace Ratchet

theorem congr (h : Ratchet top ms l) (hceiling : l'.ceiling = l.ceiling)
    (hdescriptor : l'.descriptorMoves = l.descriptorMoves)
    (hmodule : l'.moduleMoves = l.moduleMoves) : Ratchet top ms l' where
  aligned := h.aligned
  below := h.below
  descending := h.descending
  ceiling := hceiling.trans h.ceiling
  ceiling_le_top := hceiling ▸ h.ceiling_le_top
  ceiling_le := hceiling ▸ h.ceiling_le
  count := by rw [hdescriptor, hmodule, h.count]
  few_descriptorMoves := hdescriptor ▸ h.few_descriptorMoves
  few_moduleMoves := hmodule ▸ h.few_moduleMoves

theorem aim (h : Ratchet top ms l) (a : Address) : Ratchet top ms (l.aim a) := h.congr rfl rfl rfl

theorem push (h : Ratchet top ms l) (haligned : pageSize ∣ m.target.val)
    (hbelow : m.target.val + m.size ≤ l.ceiling.val) (hceiling : l'.ceiling = m.target)
    (hcount : l'.descriptorMoves + l'.moduleMoves = l.descriptorMoves + l.moduleMoves + 1)
    (hdescriptor : l'.descriptorMoves ≤ 4) (hmodule : l'.moduleMoves ≤ 64) :
    Ratchet top (ms ++ [m]) l' := by
  have htop : l.ceiling.val ≤ top.val := h.ceiling_le_top
  have hlower : ∀ n ∈ ms, m.target.val + m.size ≤ n.target.val := fun n hn =>
    Nat.le_trans hbelow (h.ceiling_le n hn)
  refine ⟨?_, ?_, ?_, ?_, ?_, ?_, ?_, hdescriptor, hmodule⟩
  · exact List.forall_mem_append.mpr ⟨h.aligned, List.forall_mem_singleton.mpr haligned⟩
  · exact List.forall_mem_append.mpr ⟨h.below, List.forall_mem_singleton.mpr (by omega)⟩
  · rw [List.pairwise_append]
    refine ⟨h.descending, List.pairwise_singleton .., fun n hn n' hn' => ?_⟩
    rw [List.mem_singleton.mp hn']
    exact hlower n hn
  · rw [hceiling, lastTarget_concat]
  · rw [hceiling]
    show m.target.val ≤ top.val
    omega
  · rw [hceiling]
    refine List.forall_mem_append.mpr
      ⟨fun n hn => ?_, List.forall_mem_singleton.mpr (Nat.le_refl m.target.val)⟩
    exact Nat.le_trans (Nat.le_add_right ..) (hlower n hn)
  · rw [hcount, h.count, List.length_append, List.length_singleton]

/-- **One phase keeps the ratchet.** -/
theorem step (h : Ratchet top ms l) (p : Phase) :
    Ratchet top (ms ++ (l.move? p).toList) (l.step p).1 := by
  have hadvanced := step_advanced l p
  generalize (l.step p).1 = l' at hadvanced ⊢
  cases hmove : l.move? p with
  | none =>
    rw [hmove] at hadvanced
    cases hadvanced with
    | still memory modules =>
      rw [Option.toList_none, List.append_nil]
      exact h.congr rfl rfl rfl
  | some m =>
    rw [hmove] at hadvanced
    obtain ⟨d, -, hfree⟩ := exists_free_of_move? hmove
    have hdescriptor := h.few_descriptorMoves
    have hmodule := h.few_moduleMoves
    cases hadvanced with
    | descriptor memory m hlt hsize =>
      exact h.push hfree.aligned hfree.below rfl (Nat.add_right_comm ..) hlt hmodule
    | module memory modules m hlt =>
      exact h.push hfree.aligned hfree.below rfl (Nat.add_assoc ..).symm hdescriptor hlt

end Ratchet

/-! ## runs and requests -/

/-- the ratchet holds at the phases of a list, where `ms` was carried out before them -/
def Ratcheted (top : Address) : List Move → List (Phase × Loader) → Prop
  | _, [] => True
  | ms, v :: vs => Ratchet top ms v.2 ∧ Ratcheted top (ms ++ (v.2.move? v.1).toList) vs

theorem Ratcheted.append (h : Ratcheted top ms pre) (h' : Ratcheted top (ms ++ moves pre) post) :
    Ratcheted top ms (pre ++ post) := by
  induction pre generalizing ms with
  | nil =>
    rw [moves_nil, List.append_nil] at h'
    exact h'
  | cons u pre ih =>
    rw [moves_cons, ← List.append_assoc] at h'
    exact ⟨h.1, ih h.2 h'⟩

theorem Ratcheted.of_split (h : Ratcheted top ms (pre ++ v :: post)) :
    Ratchet top (ms ++ moves pre) v.2 := by
  induction pre generalizing ms with
  | nil =>
    rw [moves_nil, List.append_nil]
    exact h.1
  | cons u pre ih =>
    rw [moves_cons, ← List.append_assoc]
    exact ih h.2

namespace Ratchet

/-- **A run keeps the ratchet**, in the end and whenever a phase is entered. -/
theorem run (h : Ratchet top ms l) (p : Phase) :
    Ratchet top (ms ++ moves (l.visits p)) (l.run p).1 ∧ Ratcheted top ms (l.visits p) := by
  induction l, p using run_induction generalizing ms with
  | next l p l' p' hnext ih =>
    have hstep := h.step p
    rw [hnext] at hstep
    obtain ⟨hend, hvisits⟩ := ih hstep
    rw [run_of_next hnext, visits_of_next hnext, moves_cons, ← List.append_assoc]
    exact ⟨hend, h, hvisits⟩
  | done l p l' ho hdone =>
    have hstep := h.step p
    rw [hdone] at hstep
    rw [run_of_done hdone, visits_of_done hdone, moves_cons, moves_nil, List.append_nil]
    exact ⟨hstep, h, trivial⟩
  | failed l p l' e hfailed =>
    have hstep := h.step p
    rw [hfailed] at hstep
    rw [run_of_failed hfailed, visits_of_failed hfailed, moves_cons, moves_nil, List.append_nil]
    exact ⟨hstep, h, trivial⟩

/-- **Requests keep the ratchet**, whatever comes of each of them. -/
theorem history (h : Ratchet top ms l) (rs : List Request) :
    Ratchet top (ms ++ moves (l.history rs)) (l.after rs) ∧ Ratcheted top ms (l.history rs) := by
  induction rs generalizing l ms with
  | nil =>
    refine ⟨?_, trivial⟩
    show Ratchet top (ms ++ []) l
    rw [List.append_nil]
    exact h
  | cons r rs ih =>
    obtain ⟨hend, hvisits⟩ := (h.aim r.address).run .collecting
    have hserve : (l.aim r.address).run .collecting = l.prepare r.address := rfl
    rw [hserve, ← serve_eq] at hend
    obtain ⟨hlast, hrest⟩ := ih hend
    rw [history_cons, after_cons, moves_append, ← List.append_assoc]
    exact ⟨hlast, hvisits.append hrest⟩

theorem ceiling_le_lastTarget (h : Ratchet top (ms ++ ns) l) : l.ceiling ≤ lastTarget top ms := by
  rcases List.eq_nil_or_concat ms with rfl | ⟨front, m, rfl⟩
  · exact h.ceiling_le_top
  · rw [List.concat_eq_append, lastTarget_concat]
    refine h.ceiling_le m ?_
    simp

/-- no two moves write the same byte -/
theorem apart (h : Ratchet top ms l) :
    ms.Pairwise fun m n => m.range.overlaps n.range = false := by
  refine h.descending.imp fun {m n} hle => ?_
  rw [Range.overlaps_eq_false_iff]
  intro x hm hn
  have hm : m.target.val ≤ x := hm.1
  have hn := (Range.mem_span ..).mp hn
  omega

end Ratchet

theorem Ratcheted.falls (h : Ratcheted top ms (pre ++ v :: post)) :
    ∀ w ∈ post, w.2.ceiling ≤ v.2.ceiling := by
  intro w hw
  obtain ⟨mid, rest, rfl⟩ := List.append_of_mem hw
  rw [← List.cons_append, ← List.append_assoc] at h
  have hlate := h.of_split
  rw [List.append_assoc] at h
  rw [moves_append, ← List.append_assoc] at hlate
  rw [h.of_split.ceiling]
  exact hlate.ceiling_le_lastTarget

/-! ## what is handed over -/

end Loader

/-- what a loader hands over: its descriptor, a kernel in the first four gigabytes, and a page for
the jump code below the ceiling -/
structure HandOff.Fits (ho : HandOff) (l : Loader) : Prop where
  descriptor : ho.descriptor = l.descriptor
  kernel : ho.kernel.val < 0x100000000
  aligned : pageSize ∣ ho.jumpCode.val
  below : ho.jumpCode.val + 0x1000 ≤ l.ceiling.val

namespace Loader

theorem fits_of_finalize {l l' : Loader} {ho : HandOff}
    (h : l.finalize = (l', .next (.handOff ho))) : ho.Fits l' := by
  unfold finalize at h
  split at h
  · cases h
  · rename_i kernel hkernel
    split at h
    · cases h
    · rename_i jumpCode hplan
      split at h
      · cases h
      · cases h
        obtain ⟨d, -, hfound⟩ := planJumpCode_inv hplan
        have hfree := Located.free_of_findRegion hfound
        exact ⟨rfl, kernel.first.toNat_lt, hfree.aligned, hfree.below⟩

theorem finalizing_of_step {l l' : Loader} {p : Phase} {ho : HandOff}
    (h : l.step p = (l', .next (.handOff ho))) : p = .finalizing := by
  cases p with
  | finalizing => rfl
  | collecting =>
    obtain ⟨hp, -⟩ := collect_next h
    cases hp
  | validatingPlacement =>
    obtain ⟨-, hp | hp⟩ := validatePlacement_next h <;> cases hp
  | relocatingDescriptor =>
    obtain ⟨hp, -⟩ := moveDescriptor_next h
    cases hp
  | relocatingModules =>
    rcases moveModule_next h with hp | ⟨hp, -⟩ <;> cases hp
  | handOff ho => cases h

theorem fits_of_step {l l' : Loader} {p : Phase} {ho : HandOff}
    (h : l.step p = (l', .next (.handOff ho))) : ho.Fits l' := by
  obtain rfl := finalizing_of_step h
  exact fits_of_finalize h

theorem step_done {l l' : Loader} {p : Phase} {ho : HandOff} (h : l.step p = (l', .done ho)) :
    p = .handOff ho ∧ l' = l := by
  cases p with
  | handOff ho =>
    cases h
    exact ⟨rfl, rfl⟩
  | collecting =>
    have h : l.collect = (l', .done ho) := h
    unfold collect at h
    dsimp only at h
    repeat' split at h
    all_goals cases h
  | validatingPlacement =>
    have h : l.validatePlacement = (l', .done ho) := h
    unfold validatePlacement at h
    split at h <;> cases h
  | relocatingDescriptor =>
    have h : l.moveDescriptor = (l', .done ho) := h
    unfold moveDescriptor at h
    repeat' split at h
    all_goals cases h
  | relocatingModules =>
    have h : l.moveModule = (l', .done ho) := h
    unfold moveModule at h
    dsimp only at h
    repeat' split at h
    all_goals cases h
  | finalizing =>
    have h : l.finalize = (l', .done ho) := h
    unfold finalize at h
    dsimp only at h
    repeat' split at h
    all_goals cases h

/-- **A hand-off fits the loader that gives it back.** -/
theorem fits_of_run (l : Loader) (p : Phase) (hp : ∀ ho, p = .handOff ho → ho.Fits l) {ho : HandOff}
    (h : (l.run p).2 = .ok ho) : ho.Fits (l.run p).1 := by
  induction l, p using run_induction with
  | next l p l' p' hnext ih =>
    rw [run_of_next hnext] at h ⊢
    refine ih (fun ho' hp' => ?_) h
    subst hp'
    exact fits_of_step hnext
  | done l p l' ho' hdone =>
    obtain ⟨rfl, rfl⟩ := step_done hdone
    rw [run_of_done hdone] at h ⊢
    cases h
    exact hp ho rfl
  | failed l p l' e hfailed =>
    rw [run_of_failed hfailed] at h
    cases h

theorem fits_of_prepare {l : Loader} {a : Address} {ho : HandOff} (h : (l.prepare a).2 = .ok ho) :
    ho.Fits (l.prepare a).1 := by
  refine fits_of_run (l.aim a) .collecting (fun ho hp => ?_) h
  cases hp

/-! ## addresses of 32 bits -/

/-- neither a destination nor the descriptor needs more than 32 bits -/
structure Low (l : Loader) : Prop where
  ceiling : l.ceiling.val ≤ 0x100000000
  descriptor : l.descriptor.val < 0x100000000

theorem Low.step {l : Loader} (h : l.Low) (p : Phase) : (l.step p).1.Low := by
  have hadvanced := step_advanced l p
  generalize (l.step p).1 = l' at hadvanced ⊢
  have hceiling := h.ceiling
  cases hmove : l.move? p with
  | none =>
    rw [hmove] at hadvanced
    cases hadvanced with
    | still memory modules => exact ⟨h.ceiling, h.descriptor⟩
  | some m =>
    rw [hmove] at hadvanced
    obtain ⟨d, -, hfree⟩ := exists_free_of_move? hmove
    have hbelow := hfree.below
    cases hadvanced with
    | descriptor memory m hlt hsize =>
      -- a descriptor has bytes, so it starts below the ceiling
      have hpos : 0 < m.size := Nat.lt_of_lt_of_le (by decide) hsize
      refine ⟨?_, ?_⟩
      · show m.target.val ≤ 0x100000000
        omega
      · show m.target.val < 0x100000000
        omega
    | module memory modules m hlt =>
      refine ⟨?_, h.descriptor⟩
      show m.target.val ≤ 0x100000000
      omega

theorem low_of_prepare {l : Loader} {a : Address} (hl : l.ceiling.val ≤ 0x100000000)
    (ha : a.val < 0x100000000) : (l.prepare a).1.Low := by
  have hlow : (l.aim a).Low := ⟨hl, ha⟩
  refine (run_invariant (I := Low) (fun l p l' out hlow hstep => ?_) (l.aim a) .collecting hlow).1
  have hnext := hlow.step p
  rw [hstep] at hnext
  exact hnext

/-! ## a fresh loader -/

theorem ceiling_fresh (memory : Memory) (image : Range) (physMax : Address) :
    (fresh memory image physMax).ceiling.val = min physMax.val 0x100000000 := by
  unfold fresh
  dsimp only
  split
  · rename_i hle
    have hle : physMax.val ≤ 0x100000000 := hle
    omega
  · rename_i hgt
    have hgt : ¬ physMax.val ≤ 0x100000000 := hgt
    show 0x100000000 = _
    omega

theorem ratchet_fresh (memory : Memory) (image : Range) (physMax : Address) :
    Ratchet (fresh memory image physMax).ceiling [] (fresh memory image physMax) where
  aligned := by simp
  below := by simp
  descending := .nil
  ceiling := rfl
  ceiling_le_top := Nat.le_refl (fresh memory image physMax).ceiling.val
  ceiling_le := by simp
  count := rfl
  few_descriptorMoves := Nat.zero_le _
  few_moduleMoves := Nat.zero_le _

/-- no destination is ever looked for above the first four gigabytes -/
theorem ceiling_le_fourGiB (memory : Memory) (image : Range) (physMax : Address)
    (rs : List Request) : ((fresh memory image physMax).after rs).ceiling.val ≤ 0x100000000
      ∧ ∀ v ∈ (fresh memory image physMax).history rs, v.2.ceiling.val ≤ 0x100000000 := by
  have htop := ceiling_fresh memory image physMax
  obtain ⟨hend, hall⟩ := (ratchet_fresh memory image physMax).history rs
  refine ⟨?_, fun v hv => ?_⟩
  · have hle := hend.ceiling_le_top
    show _ ≤ _
    exact Nat.le_trans hle (by omega)
  · obtain ⟨pre, post, hsplit⟩ := List.append_of_mem hv
    rw [hsplit] at hall
    exact Nat.le_trans hall.of_split.ceiling_le_top (by omega)

/-- **Whatever a fresh loader is asked for, its moves go down from the ceiling, page by page.**
The moves of all requests count, and those of a request that fails as well. -/
theorem requests_ratchet (memory : Memory) (image : Range) (physMax : Address)
    (rs : List Request) : ∃ top : Address, top.val = min physMax.val 0x100000000
      ∧ Ratchet top (moves ((fresh memory image physMax).history rs))
        ((fresh memory image physMax).after rs)
      ∧ ((moves ((fresh memory image physMax).history rs)).Pairwise fun m n =>
        m.range.overlaps n.range = false)
      ∧ (∀ pre v post, (fresh memory image physMax).history rs = pre ++ v :: post →
        Ratchet top (moves pre) v.2 ∧ (∀ w ∈ post, w.2.ceiling ≤ v.2.ceiling)
          ∧ ((fresh memory image physMax).after rs).ceiling ≤ v.2.ceiling)
      ∧ ∀ pre r post, rs = pre ++ r :: post →
        ∀ ho ∈ ((fresh memory image physMax).after pre).handOffs r,
          pageSize ∣ ho.jumpCode.val
          ∧ ho.jumpCode.val + 0x1000 ≤ ((fresh memory image physMax).after (pre ++ [r])).ceiling.val
          ∧ (r.address.val < 0x100000000 → ho.descriptor.val < 0x100000000
            ∧ ho.kernel.val < 0x100000000 ∧ ho.jumpCode.val < 0x100000000) := by
  have hfresh := ratchet_fresh memory image physMax
  have htop := ceiling_fresh memory image physMax
  obtain ⟨hend, hall⟩ := hfresh.history rs
  rw [List.nil_append] at hend
  refine ⟨_, htop, hend, hend.apart, fun pre v post hsplit => ?_,
    fun pre r post hsplit ho hho => ?_⟩
  · rw [hsplit] at hall
    have hv := hall.of_split
    rw [List.nil_append] at hv
    refine ⟨hv, hall.falls, ?_⟩
    rw [hsplit, moves_append] at hend
    rw [hv.ceiling]
    exact hend.ceiling_le_lastTarget
  · have hfits := fits_of_prepare ((mem_handOffs_iff ..).mp hho)
    rw [after_concat, serve_eq]
    refine ⟨hfits.aligned, hfits.below, fun ha => ?_⟩
    -- the ceiling was low before the request
    obtain ⟨hbefore, -⟩ := hfresh.history pre
    have hle : ((fresh memory image physMax).after pre).ceiling.val
        ≤ (fresh memory image physMax).ceiling.val := hbefore.ceiling_le_top
    have hfour : ((fresh memory image physMax).after pre).ceiling.val ≤ 0x100000000 := by omega
    have hlow := low_of_prepare hfour ha
    have hceiling := hlow.ceiling
    have hbelow := hfits.below
    refine ⟨?_, hfits.kernel, by omega⟩
    rw [hfits.descriptor]
    exact hlow.descriptor

theorem sample_ratchet : ∃ top : Address, top.val = 0x8000
    ∧ Ratchet top [⟨0x7000, 120⟩, ⟨0x6000, 4⟩] ((sample 0x2000).after [.boot 0x2000]) := by
  obtain ⟨top, htop, hratchet, -⟩ := requests_ratchet (sample 0x2000).memory (.span .zero 0)
    (.ofUInt32 0x8000) [.boot 0x2000]
  have hsample : fresh (sample 0x2000).memory (.span .zero 0) (.ofUInt32 0x8000)
      = sample 0x2000 := rfl
  have hmoves : moves ((sample 0x2000).history [.boot 0x2000])
      = [⟨0x7000, 120⟩, ⟨0x6000, 4⟩] := by
    rw [history_cons, moves_append]
    exact congrArg (· ++ []) sample_moves
  rw [hsample, hmoves] at hratchet
  exact ⟨top, htop, hratchet⟩

end Loader

end ChainBoot
