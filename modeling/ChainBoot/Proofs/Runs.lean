import ChainBoot.Proofs.Relocation

/-!
# The course of a run

Behind the first collection a run moves the descriptor any number of times, then modules any number
of times, and then it hands the kernel over; it may fail at any point, and then the loader is as the
last move left it.  The later collections change nothing.

* `Loader.Clearing`     what can come of the phases that move modules;
* `Loader.Course`       what can come of all phases behind the first collection;
* `prepare_cases`       a run fails in its first collection, or takes such a course.
-/

namespace ChainBoot.Loader

variable {l l' l'' : Loader} {d d' : Descriptor} {out : Loader × Except LoadError HandOff}
  {p p' : Phase}

/-! ## one phase after another -/

theorem run_eq (l : Loader) (p : Phase) : l.run p = match l.step p with
    | (l', .next p') => l'.run p'
    | (l', .done ho) => (l', .ok ho)
    | (l', .failed e) => (l', .error e) := by
  rw [run]
  split <;> rename_i h <;> rw [h]

theorem run_of_next (h : l.step p = (l', .next p')) : l.run p = l'.run p' := by
  rw [run_eq, h]

theorem run_of_done {ho : HandOff} (h : l.step p = (l', .done ho)) : l.run p = (l', .ok ho) := by
  rw [run_eq, h]

theorem run_of_failed {e : LoadError} (h : l.step p = (l', .failed e)) :
    l.run p = (l', .error e) := by
  rw [run_eq, h]

/-! ## moving modules -/

/-- what can come of the phases that move modules -/
inductive Clearing (l : Loader) (d : Descriptor) : Loader × Except LoadError HandOff → Prop
  | stuck {l' : Loader} {d' : Descriptor} (e : LoadError) : ModuleMoves l d l' d' →
      Clearing l d (l', .error e)
  | handedOver {l' l'' : Loader} {d' d'' : Descriptor} {k : Nat × BootModule} {ho : HandOff} :
      ModuleMoves l d l' d' → l'.planModuleMove = .ok none → l'.Finalized d' k l'' d'' ho →
      Clearing l d (l'', .ok ho)

theorem Clearing.move {i : Nat} {m : Nat × BootModule} {q : BootModule}
    (h : l.ModuleMoved d i m q l' d') (hout : l'.Clearing d' out) : l.Clearing d out := by
  cases hout with
  | stuck e hmoves => exact .stuck e (.move h hmoves)
  | handedOver hmoves hplan hfinal => exact .handedOver (.move h hmoves) hplan hfinal

theorem run_finalizing (h : l.Collected d) (hplan : l.planModuleMove = .ok none) :
    l.Clearing d (l.run .finalizing) := by
  rcases finalize_cases h with ⟨e, hf⟩ | ⟨k, l', d', ho, hf, hfinal⟩
  · rw [run_of_failed (p := .finalizing) hf]
    exact .stuck e (.none l d)
  · rw [run_of_next (p := .finalizing) hf, run_of_done (p := .handOff ho) rfl]
    exact .handedOver (.none l d) hplan hfinal

theorem run_relocatingModules (h : l.Collected d) : l.Clearing d (l.run .relocatingModules) := by
  -- each move uses up some of the budget
  induction hb : l.budget .relocatingModules using Nat.strong_induction_on generalizing l d with
  | _ n ih =>
    subst hb
    rcases moveModule_cases h with ⟨e, hm⟩ | ⟨hplan, hm⟩ | ⟨i, m, q, l', d', hm, hmoved, -⟩
    · rw [run_of_failed (p := .relocatingModules) hm]
      exact .stuck e (.none l d)
    · rw [run_of_next (p := .relocatingModules) hm]
      exact run_finalizing h hplan
    · rw [run_of_next (p := .relocatingModules) hm]
      exact (ih _ (budget_step (p := .relocatingModules) hm) hmoved.collected rfl).move hmoved

/-! ## moving the descriptor -/

/-- what can come of the phases behind a collection -/
inductive Course (l : Loader) (d : Descriptor) : Loader × Except LoadError HandOff → Prop
  | unplaced {l' : Loader} (e : LoadError) : DescriptorMoves d l l' → Course l d (l', .error e)
  | placed {l' : Loader} {out : Loader × Except LoadError HandOff} : DescriptorMoves d l l' →
      l'.placementVerdict = .ok .relocatingModules → l'.Clearing d out → Course l d out

theorem Course.move (h : l.DescriptorMoved d l') (hout : l'.Course d out) : l.Course d out := by
  cases hout with
  | unplaced e hmoves => exact .unplaced e (.move h hmoves)
  | placed hmoves hverdict hclear => exact .placed (.move h hmoves) hverdict hclear

theorem validatePlacement_of_ok (h : l.placementVerdict = .ok p) :
    l.validatePlacement = (l, .next p) := by
  unfold validatePlacement
  rw [h]

theorem validatePlacement_of_error {e : LoadError} (h : l.placementVerdict = .error e) :
    l.validatePlacement = (l, .failed e) := by
  unfold validatePlacement
  rw [h]

theorem run_validatingPlacement (h : l.Collected d) :
    l.Course d (l.run .validatingPlacement) := by
  induction hb : l.budget .validatingPlacement using Nat.strong_induction_on generalizing l with
  | _ n ih =>
    subst hb
    cases hverdict : l.placementVerdict with
    | error e =>
      rw [run_of_failed (p := .validatingPlacement) (validatePlacement_of_error hverdict)]
      exact .unplaced e (.none l)
    | ok p =>
      have hvalid : l.step .validatingPlacement = (l, .next p) := validatePlacement_of_ok hverdict
      rw [run_of_next hvalid]
      rcases placementVerdict_ok hverdict with rfl | rfl
      · exact .placed (.none l) hverdict (run_relocatingModules h)
      · rcases moveDescriptor_cases h with ⟨e, hm⟩ | ⟨l', hm, hmoved⟩
        · rw [run_of_failed (p := .relocatingDescriptor) hm]
          exact .unplaced e (.none l)
        · -- the collection behind the move finds nothing to do
          have hcollect : l'.step .collecting = (l', .next .validatingPlacement) :=
            hmoved.collected.collect
          have h1 := budget_step hvalid
          have h2 := budget_step (p := .relocatingDescriptor) hm
          have h3 := budget_step hcollect
          rw [run_of_next (p := .relocatingDescriptor) hm, run_of_next hcollect]
          exact (ih _ (by omega) hmoved.collected rfl).move hmoved

/-- whatever comes of a run, it ends where the last move left the loader, or one phase later -/
theorem Course.moves (h : l.Course d out) : ∃ l₁ l₂ d₂, DescriptorMoves d l l₁
    ∧ ModuleMoves l₁ d l₂ d₂ ∧ (out.1 = l₂ ∨ ∃ k d₃ ho, l₂.Finalized d₂ k out.1 d₃ ho) := by
  cases h with
  | unplaced e hmoves => exact ⟨_, _, d, hmoves, .none _ d, .inl rfl⟩
  | placed hmoves _ hclear =>
    cases hclear with
    | stuck e hmoved => exact ⟨_, _, _, hmoves, hmoved, .inl rfl⟩
    | handedOver hmoved _ hfinal => exact ⟨_, _, _, hmoves, hmoved, .inr ⟨_, _, _, hfinal⟩⟩

/-! ## from the start -/

/-- **A run fails in its first collection, or it takes a course from there.** -/
theorem prepare_cases (hm : l.memory.Disjoint) (a : Address) :
    (∃ l' e, (l.aim a).collect = (l', .failed e) ∧ l.prepare a = (l', .error e))
      ∨ ∃ d l' d', (l.aim a).collect = (l', .next .validatingPlacement)
          ∧ (l.aim a).Listed d l' d' ∧ l'.Course d' (l.prepare a) := by
  rcases collect_cases (l := l.aim a) hm with ⟨l', e, hc⟩ | ⟨d, l', d', hc, hlisted⟩
  · exact .inl ⟨l', e, hc, run_of_failed (p := .collecting) hc⟩
  · refine .inr ⟨d, l', d', hc, hlisted, ?_⟩
    have hrun : l.prepare a = l'.run .validatingPlacement := run_of_next (p := .collecting) hc
    rw [hrun]
    exact run_validatingPlacement hlisted.collected

/-- the stations of a run that hands the kernel over: the modules are listed, the descriptor moves
until the placement is right, modules move until none is in the way, and the kernel's tag is
turned into the command line -/
theorem prepare_ok (hm : l.memory.Disjoint) {a : Address} {ho : HandOff}
    (h : l.prepare a = (l', .ok ho)) :
    ∃ d l₁ d₁ l₂ l₃ d₃ k d₄, (l.aim a).Listed d l₁ d₁ ∧ DescriptorMoves d₁ l₁ l₂
      ∧ l₂.placementVerdict = .ok .relocatingModules ∧ ModuleMoves l₂ d₁ l₃ d₃
      ∧ l₃.planModuleMove = .ok none ∧ l₃.Finalized d₃ k l' d₄ ho := by
  rcases prepare_cases hm a with ⟨l₁, e, -, hp⟩ | ⟨d, l₁, d₁, -, hlisted, hcourse⟩
  · rw [h] at hp
    cases hp
  · rw [h] at hcourse
    cases hcourse with
    | placed hmoves hverdict hclear =>
      cases hclear with
      | handedOver hmoved hplan hfinal =>
        exact ⟨d, l₁, d₁, _, _, _, _, _, hlisted, hmoves, hverdict, hmoved, hplan, hfinal⟩

/-! ## a run -/

/-- an image with one segment, `0x2004` bytes from `start` on -/
def sampleKernel (start : UInt32) : Bytes :=
  List.flatMap Bytes.le32 [0x464C457F, 0x00010101, 0, 0, 2, 0, 0, 52, 0, 0, 0x00200034, 1, 0,
    1, 0, start, start, 0, 0x2004, 5, 0x1000]

/-- a command line, the available memory from `0x2000` up to `0x8000`, the kernel at `0x100`, and
a module of four bytes at `0x3000` -/
def sampleDescriptor : Bytes :=
  List.flatMap Bytes.le32 [120, 0, 1, 10, 0x78, 0, 6, 40, 24, 0, 0x2000, 0, 0x6000, 0, 1, 0,
    3, 18, 0x100, 0x153, 0x6B, 0, 3, 17, 0x3000, 0x3003, 0, 0, 0, 8]

/-- a loader with the descriptor at `0x2000`; a segment from there on meets it and the module -/
def sample (start : UInt32) : Loader :=
  .fresh ⟨[⟨.ofUInt32 0x100, (sampleKernel start).toArray⟩,
      ⟨.ofUInt32 0x2000, sampleDescriptor.toArray⟩, ⟨.ofUInt32 0x3000, #[1, 2, 3, 4]⟩,
      .zeroed (.ofUInt32 0x6000) 4, .zeroed (.ofUInt32 0x7000) 120]⟩
    (.span .zero 0) (.ofUInt32 0x8000)

theorem sample_disjoint : (sample 0x2000).memory.Disjoint := by decide +kernel

/-- the descriptor is moved to `0x7000` and the module to `0x6000`, before the kernel is handed
over -/
theorem sample_prepare : ∃ l', (sample 0x2000).prepare 0x2000
    = (l', .ok ⟨0x7000, 0x100, bootMagic, 0x5000⟩) := by
  have h : ((sample 0x2000).prepare 0x2000).2 = .ok ⟨0x7000, 0x100, bootMagic, 0x5000⟩ := by
    decide +kernel
  exact ⟨_, Prod.ext rfl h⟩

end ChainBoot.Loader
