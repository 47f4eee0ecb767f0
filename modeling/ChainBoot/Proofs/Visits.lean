import ChainBoot.Loader.Moves
import ChainBoot.Proofs.Runs

/-!
# Phase by phase

What holds of a run because it holds of every phase.  A run and the list of its phases are built
by the same recursion, so one principle, `run_induction`, serves both.

* `exists_free_of_move?`       a move goes to a place that is free when it is made;
* `step_advanced`              what a phase does to ceiling, counters and descriptor address;
* `step_of_collected`          what comes of a phase where descriptor and table agree;
* `run_invariant`              what every phase preserves holds at every phase and in the end.
-/

namespace ChainBoot.Loader

variable {l l' : Loader} {p p' : Phase} {out : Outcome} {d : Descriptor} {m : Move}

/-! ## the move of a phase -/

theorem move?_of_failed {e : LoadError} (h : l.step p = (l', .failed e)) : l.move? p = none := by
  have hout : (l.step p).2 = .failed e := by rw [h]
  cases p with
  | relocatingDescriptor =>
    have hout : l.moveDescriptor.2 = .failed e := hout
    unfold move?
    dsimp only
    rw [hout]
    split
    · rename_i hnext
      cases hnext
    · rfl
  | relocatingModules =>
    have hout : l.moveModule.2 = .failed e := hout
    unfold move?
    dsimp only
    rw [hout]
    split
    · rename_i hnext
      cases hnext
    · rfl
  | collecting => rfl
  | validatingPlacement => rfl
  | finalizing => rfl
  | handOff ho => rfl

/-- the descriptor stays where it is, or it is copied and the loader follows it -/
theorem moveDescriptor_move? (l : Loader) :
    (∃ e, l.moveDescriptor = (l, .failed e) ∧ l.move? .relocatingDescriptor = none)
      ∨ ∃ move memory, l.planDescriptorMove = .ok move
        ∧ l.moveDescriptor
          = ({ l with memory := memory, descriptor := move.target, ceiling := move.target,
                      descriptorMoves := l.descriptorMoves + 1 }, .next .collecting)
        ∧ l.move? .relocatingDescriptor = some ⟨move.target, move.source.size⟩ := by
  cases hm : l.moveDescriptor with
  | mk l' out =>
    have hstep : l.step .relocatingDescriptor = (l', out) := hm
    unfold moveDescriptor at hm
    split at hm
    · cases hm
      exact .inl ⟨_, rfl, move?_of_failed hstep⟩
    · rename_i move hplan
      split at hm
      · cases hm
        exact .inl ⟨_, rfl, move?_of_failed hstep⟩
      · rename_i memory hcopy
        cases hm
        refine .inr ⟨move, memory, hplan, rfl, ?_⟩
        have hout : l.moveDescriptor.2 = .next .collecting := congrArg Prod.snd hstep
        unfold move?
        dsimp only
        rw [hplan, hout]

/-- a module is copied and its bounds are edited, or ceiling and counters stay as they are -/
theorem moveModule_move? (l : Loader) :
    (∃ memory out, l.moveModule = ({ l with memory := memory }, out)
        ∧ l.move? .relocatingModules = none)
      ∨ ∃ move memory modules, l.planModuleMove = .ok (some move)
        ∧ l.moveModule
          = ({ l with memory := memory, modules := modules, ceiling := move.target,
                      moduleMoves := l.moduleMoves + 1 }, .next .relocatingModules)
        ∧ l.move? .relocatingModules = some ⟨move.target, move.source.size⟩ := by
  cases hm : l.moveModule with
  | mk l' out =>
    have hstep : l.step .relocatingModules = (l', out) := hm
    unfold moveModule at hm
    split at hm
    · cases hm
      exact .inl ⟨l.memory, _, rfl, move?_of_failed hstep⟩
    · rename_i hplan
      cases hm
      refine .inl ⟨l.memory, _, rfl, ?_⟩
      unfold move?
      dsimp only
      rw [hplan]
    · rename_i move hplan
      split at hm
      · cases hm
        exact .inl ⟨l.memory, _, rfl, move?_of_failed hstep⟩
      · rename_i copied hcopy
        dsimp only at hm
        split at hm
        · cases hm
          exact .inl ⟨copied, _, rfl, move?_of_failed hstep⟩
        · rename_i memory hedit
          cases hm
          refine .inr ⟨move, memory, _, hplan, rfl, ?_⟩
          have hout : l.moveModule.2 = .next .relocatingModules := congrArg Prod.snd hstep
          unfold move?
          dsimp only
          rw [hplan, hout]

theorem descriptorAt_of_located {x : Located} (h : l.located = .ok x) :
    ∃ d, descriptorAt l.memory l.descriptor = .ok d ∧ x = l.place d := by
  unfold located at h
  cases hd : descriptorAt l.memory l.descriptor with
  | error e =>
    rw [hd] at h
    cases h
  | ok d =>
    rw [hd] at h
    cases h
    exact ⟨d, rfl, rfl⟩

theorem headerSize_le_of_descriptorAt {memory : Memory} {a : Address}
    (h : descriptorAt memory a = .ok d) : Descriptor.headerSize ≤ (extentAt a d).size := by
  obtain ⟨-, total, bs, -, -, hbs, hparse⟩ := descriptorAt_reads h
  obtain ⟨total', -, hlo, hhi, rfl⟩ := (Descriptor.parse_eq_ok_iff ..).mp hparse
  have hlen := Memory.length_of_read hbs
  have hsize : Descriptor.size ⟨bs.take total'.toNat⟩ = total'.toNat := by
    show (bs.take total'.toNat).length = _
    rw [List.length_take]
    omega
  unfold extentAt
  rw [Range.size_span] at hlen ⊢
  rw [hsize]
  omega

theorem planDescriptorMove_free {move : DescriptorMove} (h : l.planDescriptorMove = .ok move) :
    ∃ d, descriptorAt l.memory l.descriptor = .ok d
      ∧ (l.place d).Free l.image move.source.size l.ceiling move.target
      ∧ Descriptor.headerSize ≤ move.source.size := by
  obtain ⟨x, hx, hsource, htarget⟩ := planDescriptorMove_inv h
  obtain ⟨d, hd, rfl⟩ := descriptorAt_of_located hx
  rw [hsource]
  exact ⟨d, hd, Located.free_of_findRegion htarget, headerSize_le_of_descriptorAt hd⟩

theorem planModuleMove_free {move : ModuleMove} (h : l.planModuleMove = .ok (some move)) :
    ∃ d, descriptorAt l.memory l.descriptor = .ok d
      ∧ (l.place d).Free l.image move.source.size l.ceiling move.target := by
  obtain ⟨kernel, r, x, -, -, -, hx, htarget, -, -, hsource⟩ := planModuleMove_inv h
  obtain ⟨d, hd, rfl⟩ := descriptorAt_of_located hx
  rw [hsource]
  exact ⟨d, hd, Located.free_of_findRegion htarget⟩

/-- **A move goes to a place that is free when it is made.** -/
theorem exists_free_of_move? (h : l.move? p = some m) :
    ∃ d, descriptorAt l.memory l.descriptor = .ok d
      ∧ (l.place d).Free l.image m.size l.ceiling m.target := by
  cases p with
  | relocatingDescriptor =>
    rcases moveDescriptor_move? l with ⟨e, -, hnone⟩ | ⟨move, memory, hplan, -, hsome⟩
    · rw [hnone] at h
      cases h
    · rw [hsome] at h
      cases h
      obtain ⟨d, hd, hfree, -⟩ := planDescriptorMove_free hplan
      exact ⟨d, hd, hfree⟩
  | relocatingModules =>
    rcases moveModule_move? l with
      ⟨memory, out, -, hnone⟩ | ⟨move, memory, modules, hplan, -, hsome⟩
    · rw [hnone] at h
      cases h
    · rw [hsome] at h
      cases h
      exact planModuleMove_free hplan
  | collecting => cases h
  | validatingPlacement => cases h
  | finalizing => cases h
  | handOff ho => cases h

/-! ## ceiling and counters -/

/-- what a phase with a given move does to all but memory and table -/
inductive Advanced (l : Loader) : Loader → Option Move → Prop
  | still (memory : Memory) (modules : ModuleTable) :
      Advanced l { l with memory := memory, modules := modules } none
  | descriptor (memory : Memory) (m : Move) : l.descriptorMoves < maxDescriptorMoves →
      Descriptor.headerSize ≤ m.size →
      Advanced l { l with memory := memory, descriptor := m.target, ceiling := m.target,
                          descriptorMoves := l.descriptorMoves + 1 } (some m)
  | module (memory : Memory) (modules : ModuleTable) (m : Move) : l.moduleMoves < maxModuleMoves →
      Advanced l { l with memory := memory, modules := modules, ceiling := m.target,
                          moduleMoves := l.moduleMoves + 1 } (some m)

theorem collect_still (l : Loader) :
    ∃ memory modules, l.collect.1 = { l with memory := memory, modules := modules } := by
  unfold collect
  dsimp only
  split
  · exact ⟨_, _, rfl⟩
  · split
    · exact ⟨_, _, rfl⟩
    · split
      · exact ⟨_, _, rfl⟩
      · split
        · exact ⟨_, _, rfl⟩
        · split
          · exact ⟨_, _, rfl⟩
          · exact ⟨_, _, rfl⟩

theorem validatePlacement_still (l : Loader) : l.validatePlacement.1 = l := by
  unfold validatePlacement
  split <;> rfl

theorem finalize_still (l : Loader) :
    ∃ memory modules, l.finalize.1 = { l with memory := memory, modules := modules } := by
  unfold finalize
  split
  · exact ⟨_, _, rfl⟩
  · split
    · exact ⟨_, _, rfl⟩
    · split
      · exact ⟨_, _, rfl⟩
      · exact ⟨_, _, rfl⟩

/-- **A move lowers the ceiling to its target and is counted; nothing else touches the two.** -/
theorem step_advanced (l : Loader) (p : Phase) : l.Advanced (l.step p).1 (l.move? p) := by
  cases p with
  | collecting =>
    obtain ⟨memory, modules, h⟩ := collect_still l
    show l.Advanced l.collect.1 none
    rw [h]
    exact .still memory modules
  | validatingPlacement =>
    show l.Advanced l.validatePlacement.1 none
    rw [validatePlacement_still]
    exact .still l.memory l.modules
  | relocatingDescriptor =>
    show l.Advanced l.moveDescriptor.1 _
    rcases moveDescriptor_move? l with ⟨e, hm, hnone⟩ | ⟨move, memory, hplan, hm, hsome⟩
    · rw [hm, hnone]
      exact .still l.memory l.modules
    · obtain ⟨-, -, -, hsize⟩ := planDescriptorMove_free hplan
      rw [hm, hsome]
      exact .descriptor memory ⟨move.target, move.source.size⟩ (planDescriptorMove_ok hplan) hsize
  | relocatingModules =>
    show l.Advanced l.moveModule.1 _
    rcases moveModule_move? l with
      ⟨memory, out, hm, hnone⟩ | ⟨move, memory, modules, hplan, hm, hsome⟩
    · rw [hm, hnone]
      exact .still memory l.modules
    · rw [hm, hsome]
      exact .module memory modules ⟨move.target, move.source.size⟩ (planModuleMove_ok hplan)
  | finalizing =>
    obtain ⟨memory, modules, h⟩ := finalize_still l
    show l.Advanced l.finalize.1 none
    rw [h]
    exact .still memory modules
  | handOff ho => exact .still l.memory l.modules

/-! ## where descriptor and table agree -/

/-- what comes of a phase: it writes nothing, or it moves the descriptor or a module, or it turns
the kernel's tag into the command line -/
inductive Stepped (l : Loader) (d : Descriptor) (p : Phase) : Loader × Outcome → Prop
  | failed (e : LoadError) : l.move? p = none → Stepped l d p (l, .failed e)
  | done (ho : HandOff) : l.move? p = none → Stepped l d p (l, .done ho)
  | passed (p' : Phase) : l.move? p = none → Stepped l d p (l, .next p')
  | descriptorMoved {l' : Loader} : l.DescriptorMoved d l' →
      l.move? p = some ⟨l'.descriptor, d.size⟩ → Stepped l d p (l', .next .collecting)
  | moduleMoved {i : Nat} {k : Nat × BootModule} {q : BootModule} {l' : Loader} {d' : Descriptor} :
      l.ModuleMoved d i k q l' d' → l.move? p = some ⟨l'.ceiling, k.2.range.size⟩ →
      Stepped l d p (l', .next .relocatingModules)
  | finalized {k : Nat × BootModule} {l' : Loader} {d' : Descriptor} {ho : HandOff} :
      l.Finalized d k l' d' ho → l.move? p = none → Stepped l d p (l', .next (.handOff ho))

theorem stepped_validatingPlacement (l : Loader) (d : Descriptor) :
    l.Stepped d .validatingPlacement l.validatePlacement := by
  unfold validatePlacement
  split
  · exact .failed _ rfl
  · exact .passed _ rfl

theorem stepped_relocatingDescriptor (h : l.Collected d) :
    l.Stepped d .relocatingDescriptor l.moveDescriptor := by
  rcases moveDescriptor_cases h with ⟨e, hm⟩ | ⟨l', hm, hmoved⟩
  · rw [hm]
    exact .failed e (move?_of_failed (p := .relocatingDescriptor) hm)
  · rcases moveDescriptor_move? l with ⟨e, hm', -⟩ | ⟨move, memory, hplan, hm', hmove⟩
    · rw [hm] at hm'
      cases hm'
    · obtain ⟨hsource, -⟩ := planDescriptorMove_spec h hplan
      rw [hsource, h.size_extent] at hmove
      rw [hm, Prod.mk.injEq] at hm'
      rw [hm]
      refine .descriptorMoved hmoved ?_
      rw [hmove, hm'.1]

theorem stepped_relocatingModules (h : l.Collected d) :
    l.Stepped d .relocatingModules l.moveModule := by
  rcases moveModule_cases h with ⟨e, hm⟩ | ⟨hplan, hm⟩
    | ⟨i, k, q, l', d', hm, hmoved, move, hplan, hsource⟩
  · rw [hm]
    exact .failed e (move?_of_failed (p := .relocatingModules) hm)
  · rw [hm]
    refine .passed .finalizing ?_
    unfold move?
    dsimp only
    rw [hplan]
  · rw [hm]
    refine .moduleMoved hmoved ?_
    rcases moveModule_move? l with
      ⟨memory, out, hm', -⟩ | ⟨move', memory, modules, hplan', hm', hmove⟩
    · -- a move that is carried out is counted
      have hcount : l'.moduleMoves = l.moduleMoves + 1 := by rw [hmoved.state]
      rw [hm, Prod.mk.injEq] at hm'
      rw [hm'.1] at hcount
      exact absurd hcount (Nat.ne_of_lt (Nat.lt_succ_self _))
    · rw [hplan, Except.ok.injEq, Option.some.injEq] at hplan'
      rw [← hplan', hsource] at hmove
      rw [hm, Prod.mk.injEq, ← hplan'] at hm'
      rw [hmove, hm'.1]

theorem stepped_finalizing (h : l.Collected d) : l.Stepped d .finalizing l.finalize := by
  rcases finalize_cases h with ⟨e, hf⟩ | ⟨k, l', d', ho, hf, hfinal⟩
  · rw [hf]
    exact .failed e rfl
  · rw [hf]
    exact .finalized hfinal rfl

/-- **Where descriptor and table agree, a phase does one of six things.** -/
theorem step_of_collected (h : l.Collected d) (p : Phase) : l.Stepped d p (l.step p) := by
  cases p with
  | collecting =>
    show l.Stepped d .collecting l.collect
    rw [h.collect]
    exact .passed .validatingPlacement rfl
  | validatingPlacement => exact stepped_validatingPlacement l d
  | relocatingDescriptor => exact stepped_relocatingDescriptor h
  | relocatingModules => exact stepped_relocatingModules h
  | finalizing => exact stepped_finalizing h
  | handOff ho => exact .done ho rfl

/-! ## induction along a run -/

theorem visits_eq (l : Loader) (p : Phase) : l.visits p = match l.step p with
    | (l', .next p') => (p, l) :: l'.visits p'
    | _ => [(p, l)] := by
  rw [visits]
  split
  · rename_i h
    rw [h]
  · rename_i hstop
    split
    · rename_i h
      exact absurd h (hstop _ _)
    · rfl

theorem visits_of_next (h : l.step p = (l', .next p')) :
    l.visits p = (p, l) :: l'.visits p' := by
  rw [visits_eq, h]

theorem visits_of_done {ho : HandOff} (h : l.step p = (l', .done ho)) : l.visits p = [(p, l)] := by
  rw [visits_eq, h]

theorem visits_of_failed {e : LoadError} (h : l.step p = (l', .failed e)) :
    l.visits p = [(p, l)] := by
  rw [visits_eq, h]

/-- what holds where a run ends, and before a phase if it holds behind it, holds everywhere -/
theorem run_induction {P : Loader → Phase → Prop}
    (next : ∀ l p l' p', l.step p = (l', .next p') → P l' p' → P l p)
    (done : ∀ l p l' ho, l.step p = (l', .done ho) → P l p)
    (failed : ∀ l p l' e, l.step p = (l', .failed e) → P l p) (l : Loader) (p : Phase) : P l p := by
  induction hb : l.budget p using Nat.strong_induction_on generalizing l p with
  | _ n ih =>
    subst hb
    cases h : l.step p with
    | mk l' out =>
      cases out with
      | next p' => exact next l p l' p' h (ih _ (budget_step h) l' p' rfl)
      | done ho => exact done l p l' ho h
      | failed e => exact failed l p l' e h

/-- what every phase preserves holds in the end, and whenever a phase is entered -/
theorem run_invariant {I : Loader → Prop}
    (hstep : ∀ l p l' out, I l → l.step p = (l', out) → I l') (l : Loader) (p : Phase) (h : I l) :
    I (l.run p).1 ∧ ∀ v ∈ l.visits p, I v.2 := by
  induction l, p using run_induction with
  | next l p l' p' hnext ih =>
    obtain ⟨hend, hvisits⟩ := ih (hstep _ _ _ _ h hnext)
    rw [run_of_next hnext, visits_of_next hnext]
    exact ⟨hend, List.forall_mem_cons.mpr ⟨h, hvisits⟩⟩
  | done l p l' ho hdone =>
    rw [run_of_done hdone, visits_of_done hdone]
    exact ⟨hstep _ _ _ _ h hdone, List.forall_mem_singleton.mpr h⟩
  | failed l p l' e hfailed =>
    rw [run_of_failed hfailed, visits_of_failed hfailed]
    exact ⟨hstep _ _ _ _ h hfailed, List.forall_mem_singleton.mpr h⟩

/-- the descriptor goes from `0x2000` to `0x7000`, and then the module from `0x3000` to `0x6000` -/
theorem sample_moves : moves ((sample 0x2000).trace 0x2000) = [⟨0x7000, 120⟩, ⟨0x6000, 4⟩] := by
  decide +kernel

end ChainBoot.Loader
