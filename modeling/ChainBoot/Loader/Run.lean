import ChainBoot.Loader.Step

/-!
# Whole runs

`Loader.run` carries out phases until a hand-off or a failure.  Every phase that goes on uses up
some of `Loader.budget`, which counts the phases that can still follow: three for each descriptor
move that is left, one for each module move, and one for each later stage.

* `Loader.visits`    the phases of a run with the loader that enters each;
* `Loader.prepare`   a run from a descriptor address;
* `Loader.boot`      the same, and the kernel is started at the end.
-/

namespace ChainBoot.Loader

/-- the phases that a run may still carry out -/
def budget (l : Loader) : Phase → Nat
  | .collecting => 3 * (maxDescriptorMoves - l.descriptorMoves) + (maxModuleMoves - l.moduleMoves) + 5
  | .validatingPlacement =>
    3 * (maxDescriptorMoves - l.descriptorMoves) + (maxModuleMoves - l.moduleMoves) + 4
  | .relocatingDescriptor =>
    3 * (maxDescriptorMoves - l.descriptorMoves) + (maxModuleMoves - l.moduleMoves) + 3
  | .relocatingModules => maxModuleMoves - l.moduleMoves + 3
  | .finalizing => 2
  | .handOff _ => 1

/-! ## every phase that goes on uses up budget -/

section
variable {l l' : Loader} {p p' : Phase}

theorem collect_next (h : l.collect = (l', .next p)) :
    p = .validatingPlacement ∧ l'.descriptorMoves = l.descriptorMoves
      ∧ l'.moduleMoves = l.moduleMoves := by
  unfold collect at h
  dsimp only at h
  split at h
  · cases h
  · split at h
    · cases h
    · split at h
      · cases h
      · split at h
        · cases h
        · split at h
          · cases h
          · cases h
            exact ⟨rfl, rfl, rfl⟩

theorem placementVerdict_ok (h : l.placementVerdict = .ok p) :
    p = .relocatingModules ∨ p = .relocatingDescriptor := by
  unfold placementVerdict at h
  split at h
  · cases h
  · split at h
    · cases h
    · split at h
      · cases h; exact .inl rfl
      · cases h; exact .inr rfl
      · cases h

theorem validatePlacement_next (h : l.validatePlacement = (l', .next p)) :
    l' = l ∧ (p = .relocatingModules ∨ p = .relocatingDescriptor) := by
  unfold validatePlacement at h
  split at h
  · cases h
  · rename_i hv
    cases h
    exact ⟨rfl, placementVerdict_ok hv⟩

theorem planDescriptorMove_ok {m : DescriptorMove} (h : l.planDescriptorMove = .ok m) :
    l.descriptorMoves < maxDescriptorMoves := by
  unfold planDescriptorMove at h
  split at h
  · cases h
  · rename_i hlt
    exact Nat.lt_of_not_le hlt

theorem moveDescriptor_next (h : l.moveDescriptor = (l', .next p)) :
    p = .collecting ∧ l.descriptorMoves < maxDescriptorMoves
      ∧ l'.descriptorMoves = l.descriptorMoves + 1 ∧ l'.moduleMoves = l.moduleMoves := by
  unfold moveDescriptor at h
  split at h
  · cases h
  · rename_i hplan
    split at h
    · cases h
    · cases h
      exact ⟨rfl, planDescriptorMove_ok hplan, rfl, rfl⟩

theorem planModuleMove_ok {m : ModuleMove} (h : l.planModuleMove = .ok (some m)) :
    l.moduleMoves < maxModuleMoves := by
  unfold planModuleMove at h
  split at h
  · cases h
  · split at h
    · cases h
    · split at h
      · cases h
      · rename_i hlt
        exact Nat.lt_of_not_le hlt

theorem moveModule_next (h : l.moveModule = (l', .next p)) :
    p = .finalizing ∨ p = .relocatingModules ∧ l.moduleMoves < maxModuleMoves
      ∧ l'.moduleMoves = l.moduleMoves + 1 := by
  unfold moveModule at h
  split at h
  · cases h
  · cases h; exact .inl rfl
  · rename_i hplan
    split at h
    · cases h
    · dsimp only at h
      split at h
      · cases h
      · cases h
        exact .inr ⟨rfl, planModuleMove_ok hplan, rfl⟩

theorem finalize_next (h : l.finalize = (l', .next p)) : ∃ ho, p = .handOff ho := by
  unfold finalize at h
  split at h
  · cases h
  · split at h
    · cases h
    · split at h
      · cases h
      · cases h
        exact ⟨_, rfl⟩

theorem budget_step (h : l.step p = (l', .next p')) : l'.budget p' < l.budget p := by
  cases p with
  | collecting =>
    obtain ⟨rfl, h1, h2⟩ := collect_next h
    simp only [budget, h1, h2]
    omega
  | validatingPlacement =>
    obtain ⟨rfl, rfl | rfl⟩ := validatePlacement_next h
    · simp only [budget]
      omega
    · simp only [budget]
      omega
  | relocatingDescriptor =>
    obtain ⟨rfl, hlt, h1, h2⟩ := moveDescriptor_next h
    simp only [budget, h1, h2]
    omega
  | relocatingModules =>
    rcases moveModule_next h with rfl | ⟨rfl, hlt, h1⟩
    · simp only [budget]
      omega
    · simp only [budget, h1]
      omega
  | finalizing =>
    obtain ⟨ho, rfl⟩ := finalize_next h
    simp only [budget]
    omega
  | handOff ho => cases h

end

/-! ## runs -/

/-- the phases from `p` on, to a hand-off or a failure -/
def run (l : Loader) (p : Phase) : Loader × Except LoadError HandOff :=
  match _h : l.step p with
  | (l', .next p') => run l' p'
  | (l', .done ho) => (l', .ok ho)
  | (l', .failed e) => (l', .error e)
termination_by l.budget p
decreasing_by exact budget_step _h

/-- the phases of a run and the loader that enters each -/
def visits (l : Loader) (p : Phase) : List (Phase × Loader) :=
  match _h : l.step p with
  | (l', .next p') => (p, l) :: visits l' p'
  | _ => [(p, l)]
termination_by l.budget p
decreasing_by exact budget_step _h

/-- the loader that looks for the descriptor at `a` -/
def aim (l : Loader) (a : Address) : Loader := { l with descriptor := a }

/-- all that comes before the kernel is started -/
def prepare (l : Loader) (a : Address) : Loader × Except LoadError HandOff :=
  (l.aim a).run .collecting

/-- what `boot` leaves: the loader, the error and the hand-offs at which a kernel was started -/
structure Booted where
  loader : Loader
  error : LoadError
  started : List HandOff

/-- prepares and starts the kernel; it comes back with an error in any case -/
def boot (l : Loader) (a : Address) : Booted :=
  match l.prepare a with
  | (l', .ok ho) => ⟨l', .loaderReturned, [ho]⟩
  | (l', .error e) => ⟨l', e, []⟩

end ChainBoot.Loader
