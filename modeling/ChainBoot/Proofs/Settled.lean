import ChainBoot.Proofs.Ratchet
import ChainBoot.Proofs.Written

/-!
# Behind the first collection

Once the first collection of a run has succeeded, descriptor and table agree whenever a phase in
front of the hand-off is entered.  A phase that fails there leaves the loader as it was, so they
agree behind a failed run as well.

* `Phase.isInner`        the phases between a collection and the hand-off;
* `run_settled`          what is known of the phases of a run behind a collection, and of its end;
* `after_disjoint`       no request moves a bank;
* `mem_history_iff`      a phase of many requests is a phase of one of them.
-/

namespace ChainBoot

/-- the phases that work on a descriptor and a table that a collection left -/
def Phase.isInner : Phase → Bool
  | .validatingPlacement | .relocatingDescriptor | .relocatingModules | .finalizing => true
  | .collecting | .handOff _ => false

namespace Loader

variable {l l' : Loader} {d : Descriptor} {p : Phase}

/-! ## one run -/

theorem isInner_of_move? {p : Phase} {m : Move} (h : l.move? p = some m) : p.isInner = true := by
  cases p with
  | relocatingDescriptor => rfl
  | relocatingModules => rfl
  | collecting => cases h
  | validatingPlacement => cases h
  | finalizing => cases h
  | handOff ho => cases h

/-- the phases from `p` on are entered where descriptor and table agree, and the run ends there,
or one phase later with the hand-off -/
structure Settled (l : Loader) (p : Phase) : Prop where
  entered : ∀ v ∈ l.visits p, (∀ ho, v.1 ≠ .handOff ho) → ∃ d, v.2.Collected d
  failed : ∀ e, (l.run p).2 = .error e → ∃ d q, (l.run p).1.Collected d
    ∧ (l.run p).1.step q = ((l.run p).1, .failed e)
  handedOver : ∀ ho, (l.run p).2 = .ok ho → ∃ (l₁ : Loader) (d₁ : Descriptor)
    (k : Nat × BootModule) (d₂ : Descriptor),
    l₁.Collected d₁ ∧ l₁.Finalized d₁ k (l.run p).1 d₂ ho

theorem Settled.next {p' : Phase} (hnext : l.step p = (l', .next p')) (h : l.Collected d)
    (hrest : l'.Settled p') : l.Settled p where
  entered := by
    rw [visits_of_next hnext]
    intro v hv hinner
    rcases List.mem_cons.mp hv with rfl | hv
    · exact ⟨d, h⟩
    · exact hrest.entered v hv hinner
  failed := by
    rw [run_of_next hnext]
    exact hrest.failed
  handedOver := by
    rw [run_of_next hnext]
    exact hrest.handedOver

theorem settled_of_failed {e : LoadError} (hfailed : l.step p = (l, .failed e))
    (h : l.Collected d) : l.Settled p where
  entered := by
    rw [visits_of_failed hfailed]
    intro v hv _
    rw [List.mem_singleton.mp hv]
    exact ⟨d, h⟩
  failed := by
    rw [run_of_failed hfailed]
    intro e' he'
    cases he'
    exact ⟨d, p, h, hfailed⟩
  handedOver := by
    rw [run_of_failed hfailed]
    intro ho hho
    cases hho

theorem settled_of_finalized {k : Nat × BootModule} {d' : Descriptor} {ho : HandOff}
    (hnext : l.step p = (l', .next (.handOff ho))) (h : l.Collected d)
    (hfinal : l.Finalized d k l' d' ho) : l.Settled p where
  entered := by
    rw [visits_of_next hnext, visits_of_done (p := .handOff ho) rfl]
    intro v hv hinner
    rcases List.mem_cons.mp hv with rfl | hv
    · exact ⟨d, h⟩
    · rw [List.mem_singleton.mp hv] at hinner
      exact absurd rfl (hinner ho)
  failed := by
    rw [run_of_next hnext, run_of_done (p := .handOff ho) rfl]
    intro e he
    cases he
  handedOver := by
    rw [run_of_next hnext, run_of_done (p := .handOff ho) rfl]
    intro ho' hho'
    cases hho'
    exact ⟨l, d, k, d', h, hfinal⟩

theorem exists_collected_of_next {p' : Phase} (h : l.Collected d)
    (hnext : l.step p = (l', .next p')) (hp' : ∀ ho, p' ≠ .handOff ho) :
    ∃ d', l'.Collected d' ∧ d'.modules[0]? = d.modules[0]? := by
  have hstep := step_of_collected h p
  rw [hnext] at hstep
  cases hstep with
  | passed p' hmove => exact ⟨d, h, rfl⟩
  | descriptorMoved hmoved hmove => exact ⟨d, hmoved.collected, rfl⟩
  | moduleMoved hmoved hmove => exact ⟨_, hmoved.collected, hmoved.follows.kernel⟩
  | finalized hfinal hmove => exact absurd rfl (hp' _)

/-- **Behind a collection descriptor and table agree to the end.** -/
theorem run_settled (h : l.Collected d) (hp : ∀ ho, p ≠ .handOff ho) : l.Settled p := by
  induction l, p using run_induction generalizing d with
  | next l p l' p' hnext ih =>
    by_cases hho : ∃ ho, p' = .handOff ho
    · obtain ⟨ho, rfl⟩ := hho
      obtain rfl := finalizing_of_step hnext
      rcases finalize_cases h with ⟨e, hf⟩ | ⟨k, l₁, d₁, ho₁, hf, hfinal⟩
      · cases hnext.symm.trans hf
      · cases hnext.symm.trans hf
        exact settled_of_finalized hnext h hfinal
    · have hp' : ∀ ho, p' ≠ .handOff ho := fun ho hho' => hho ⟨ho, hho'⟩
      obtain ⟨d', h', -⟩ := exists_collected_of_next h hnext hp'
      exact .next hnext h (ih h' hp')
  | done l p l' ho hdone =>
    obtain ⟨rfl, -⟩ := step_done hdone
    exact absurd rfl (hp ho)
  | failed l p l' e hfailed =>
    have hstep := step_of_collected h p
    rw [hfailed] at hstep
    cases hstep with
    | failed e hmove => exact settled_of_failed hfailed h

/-! ## from the start -/

theorem prepare_layout (hm : l.memory.Disjoint) (a : Address) :
    (l.prepare a).1.memory.layout = l.memory.layout := by
  have hcollect : (l.aim a).collect.1.memory.layout = l.memory.layout := by
    rcases collect_written (l := l.aim a) hm with hsame | ⟨d, d', -, -, hframe, -⟩
    · rw [hsame]
      rfl
    · exact hframe.layout
  rcases prepare_stages hm a with ⟨e, hrun, -⟩ | ⟨d, d', hlisted, hrun, -⟩
  · rw [hrun]
    exact hcollect
  · rw [hrun]
    exact (run_written hlisted.collected .validatingPlacement).frame.layout.trans hcollect

theorem Listed.settled {d' : Descriptor} (h : l.Listed d l' d') :
    l'.Settled .validatingPlacement :=
  run_settled h.collected fun ho hho => by cases hho

/-- in front of the hand-off a run has the loader that it was started with, or a collected one -/
theorem mem_trace_cases (hm : l.memory.Disjoint) {a : Address} {v : Phase × Loader}
    (hv : v ∈ l.trace a) (hp : ∀ ho, v.1 ≠ .handOff ho) :
    v = (.collecting, l.aim a) ∨ ∃ d, v.2.Collected d := by
  rcases prepare_stages hm a with ⟨e, -, htrace⟩ | ⟨d, d', hlisted, -, htrace⟩
  · rw [htrace] at hv
    exact .inl (List.mem_singleton.mp hv)
  · rw [htrace] at hv
    rcases List.mem_cons.mp hv with hfirst | hv
    · exact .inl hfirst
    · exact .inr (hlisted.settled.entered v hv hp)

theorem exists_collected_of_mem_trace (hm : l.memory.Disjoint) {a : Address} {v : Phase × Loader}
    (hv : v ∈ l.trace a) (hinner : v.1.isInner = true) : ∃ d, v.2.Collected d := by
  have hne : ∀ ho, v.1 ≠ .handOff ho := by
    intro ho hho
    rw [hho] at hinner
    cases hinner
  rcases mem_trace_cases hm hv hne with rfl | hcollected
  · cases hinner
  · exact hcollected

theorem disjoint_of_mem_trace (hm : l.memory.Disjoint) {a : Address} {v : Phase × Loader}
    (hv : v ∈ l.trace a) (hp : ∀ ho, v.1 ≠ .handOff ho) : v.2.memory.Disjoint := by
  rcases mem_trace_cases hm hv hp with rfl | ⟨d, hcollected⟩
  · exact hm
  · exact hcollected.disjoint

/-! ## any number of requests -/

theorem after_disjoint (hm : l.memory.Disjoint) (rs : List Request) :
    (l.after rs).memory.Disjoint := by
  induction rs generalizing l with
  | nil => exact hm
  | cons r rs ih =>
    rw [after_cons]
    apply ih
    rw [serve_eq, Memory.disjoint_iff, prepare_layout hm]
    exact (Memory.disjoint_iff _).mp hm

theorem mem_history_iff (l : Loader) (rs : List Request) (v : Phase × Loader) :
    v ∈ l.history rs ↔ ∃ pre r post, rs = pre ++ r :: post ∧ v ∈ (l.after pre).trace r.address := by
  induction rs generalizing l with
  | nil =>
    constructor
    · intro hv
      cases hv
    · rintro ⟨pre, r, post, hsplit, -⟩
      simp at hsplit
  | cons r rs ih =>
    rw [history_cons, List.mem_append, ih]
    constructor
    · rintro (hv | ⟨pre, r', post, rfl, hv⟩)
      · exact ⟨[], r, rs, rfl, hv⟩
      · exact ⟨r :: pre, r', post, rfl, hv⟩
    · rintro ⟨pre, r', post, hsplit, hv⟩
      cases pre with
      | nil =>
        cases hsplit
        exact .inl hv
      | cons r₀ pre =>
        cases hsplit
        exact .inr ⟨pre, r', post, rfl, hv⟩

theorem exists_collected_of_mem_history (hm : l.memory.Disjoint) {rs : List Request}
    {v : Phase × Loader} (hv : v ∈ l.history rs) (hinner : v.1.isInner = true) :
    ∃ d, v.2.Collected d := by
  obtain ⟨pre, r, post, -, hv⟩ := (mem_history_iff ..).mp hv
  exact exists_collected_of_mem_trace (after_disjoint hm pre) hv hinner

end Loader

end ChainBoot
