import ChainBoot.Proofs.Visits

/-!
# What a run writes

A run edits the descriptor where it comes in, and from then on it writes to the targets of its own
moves alone.  Every target is vacant when it is chosen, so neither the image nor a framebuffer is
ever written, unless the descriptor that came in lies on it.

* `Loader.Vacant`       a place that is available and not in use;
* `Loader.Written`      what the phases behind a collection write;
* `run_written`         they write the descriptor and the targets of moves;
* `prepare_written`     what a whole run writes, whatever comes of it.
-/

namespace ChainBoot.Loader

variable {l l' : Loader} {d d' : Descriptor} {p p' : Phase} {m : Move}

/-! ## the place of a move -/

/-- the place of a move lies in available memory, below the ceiling, and away from everything that
is in use -/
structure Vacant (l : Loader) (d : Descriptor) (m : Move) : Prop where
  available : ∃ e ∈ d.memoryEntries, e.isAvailable = true ∧ e.range.contains m.range = true
  below : m.target.val + m.size ≤ l.ceiling.val
  image : m.range.overlaps l.image = false
  extent : m.range.overlaps (extentAt l.descriptor d) = false
  framebuffers : ∀ f ∈ d.framebuffers, m.range.overlaps f.extent = false
  modules : ∀ k ∈ d.modules, m.range.overlaps k.2.range = false
  records : ∀ r ∈ l.modules.records, m.range.overlaps r.range = false

theorem vacant_of_move? (h : l.Collected d) (hmove : l.move? p = some m) : l.Vacant d m := by
  obtain ⟨found, hfound, hfree⟩ := exists_free_of_move? hmove
  rw [h.stored, Except.ok.injEq] at hfound
  subst hfound
  refine ⟨hfree.available, hfree.below, hfree.clear_image, hfree.clear_extent,
    fun f hf => hfree.clear_framebuffer hf, fun k hk => hfree.clear_module hk, fun r hr => ?_⟩
  obtain ⟨i, hi⟩ := List.getElem?_of_mem hr
  have hrec : l.modules.get? i = some r := hi
  rw [h.get?_eq, Option.map_eq_some_iff] at hrec
  obtain ⟨k, hk, rfl⟩ := hrec
  exact hfree.clear_module (List.mem_of_getElem? hk)

/-! ## behind a collection -/

/-- the ranges that a phase and the phases behind it may write -/
def reach (l : Loader) (d : Descriptor) (ms : List Move) : List Range :=
  extentAt l.descriptor d :: ms.map Move.range

/-- what the phases from `p` on write, where `d` is the descriptor in memory -/
structure Written (l : Loader) (d : Descriptor) (p : Phase) : Prop where
  frame : Memory.Frame (l.reach d (moves (l.visits p))) l.memory (l.run p).1.memory
  idle : ∀ e, (l.run p).2 = .error e → moves (l.visits p) = [] → (l.run p).1.memory = l.memory
  chosen : ∀ v ∈ l.visits p, ∀ m, v.2.move? v.1 = some m →
    v.2.image = l.image ∧ ∃ d', v.2.Collected d' ∧ d.Follows d'

theorem written_of_stop {out : Except LoadError HandOff} (hrun : l.run p = (l, out))
    (hvisits : l.visits p = [(p, l)]) (hmove : l.move? p = none) : l.Written d p where
  frame := by
    rw [hrun]
    exact .refl _ _
  idle := by
    intro e _ _
    rw [hrun]
  chosen := by
    rw [hvisits]
    intro v hv m hm
    rw [List.mem_singleton.mp hv, hmove] at hm
    cases hm

theorem reach_step (hextent : extentAt l'.descriptor d' ∈ l.reach d (l.move? p).toList)
    (ms : List Move) : ∀ r ∈ l'.reach d' ms, r ∈ l.reach d ((l.move? p).toList ++ ms) := by
  intro r hr
  have happ : l.reach d ((l.move? p).toList ++ ms)
      = l.reach d (l.move? p).toList ++ ms.map Move.range := by
    unfold reach
    rw [List.map_append, List.cons_append]
  rw [happ, List.mem_append]
  rcases List.mem_cons.mp hr with rfl | hr
  · exact .inl hextent
  · exact .inr hr

theorem Written.next (hnext : l.step p = (l', .next p')) (hcoll : l.Collected d)
    (hframe : Memory.Frame (l.reach d (l.move? p).toList) l.memory l'.memory)
    (hextent : extentAt l'.descriptor d' ∈ l.reach d (l.move? p).toList)
    (himage : l'.image = l.image) (hfollows : d.Follows d')
    (hidle : l.move? p = none → l'.memory = l.memory) (h : l'.Written d' p') : l.Written d p where
  frame := by
    rw [run_of_next hnext, visits_of_next hnext, moves_cons]
    refine (hframe.mono fun r hr => ?_).trans (h.frame.mono (reach_step hextent _))
    unfold reach at hr ⊢
    rw [List.map_append, ← List.cons_append]
    exact List.mem_append_left _ hr
  idle := by
    rw [run_of_next hnext, visits_of_next hnext, moves_cons]
    intro e he hnil
    obtain ⟨hnone, hrest⟩ := List.append_eq_nil_iff.mp hnil
    rw [h.idle e he hrest, hidle (Option.toList_eq_nil_iff.mp hnone)]
  chosen := by
    rw [visits_of_next hnext]
    intro v hv m hm
    rcases List.mem_cons.mp hv with rfl | hv
    · exact ⟨rfl, d, hcoll, .refl d⟩
    · obtain ⟨himage', e, hcoll', hfollows'⟩ := h.chosen v hv m hm
      exact ⟨himage'.trans himage, e, hcoll', hfollows.trans hfollows'⟩

theorem written_of_finalized {k : Nat × BootModule} {ho : HandOff}
    (hnext : l.step p = (l', .next (.handOff ho))) (hfinal : l.Finalized d k l' d' ho)
    (hmove : l.move? p = none) : l.Written d p := by
  have hrun : l.run p = (l', .ok ho) := by
    rw [run_of_next hnext, run_of_done (p := .handOff ho) rfl]
  have hvisits : l.visits p = [(p, l), (.handOff ho, l')] := by
    rw [visits_of_next hnext, visits_of_done (p := .handOff ho) rfl]
  refine ⟨?_, ?_, ?_⟩
  · rw [hrun]
    exact hfinal.frame.mono fun r hr => List.mem_cons.mpr (.inl (List.mem_singleton.mp hr))
  · intro e he
    rw [hrun] at he
    cases he
  · rw [hvisits]
    intro v hv m hm
    rcases List.mem_cons.mp hv with rfl | hv
    · rw [hmove] at hm
      cases hm
    · rw [List.mem_singleton.mp hv] at hm
      cases hm

/-- **Behind a collection the descriptor and the targets of moves are written, no other byte.** -/
theorem run_written (h : l.Collected d) (p : Phase) : l.Written d p := by
  induction l, p using run_induction generalizing d with
  | next l p l' p' hnext ih =>
    have hstep := step_of_collected h p
    rw [hnext] at hstep
    cases hstep with
    | passed p' hmove =>
      exact .next hnext h (.refl _ _) (List.mem_cons_self ..) rfl (.refl d) (fun _ => rfl) (ih h)
    | descriptorMoved hmoved hmove =>
      have hreach : l.reach d (l.move? p).toList
          = [extentAt l.descriptor d, extentAt l'.descriptor d] := by
        rw [hmove]
        rfl
      refine .next hnext h ?_ ?_ hmoved.image (.refl d) (fun hnone => ?_) (ih hmoved.collected)
      · rw [hreach]
        exact hmoved.frame.mono fun r hr => List.mem_cons_of_mem _ hr
      · rw [hreach]
        exact List.mem_cons_of_mem _ (List.mem_singleton.mpr rfl)
      · rw [hmove] at hnone
        cases hnone
    | @moduleMoved i k q l' d' hmoved hmove =>
      have hreach : l.reach d (l.move? p).toList = [extentAt l.descriptor d, q.range] := by
        rw [hmove, hmoved.range]
        rfl
      refine .next hnext h ?_ ?_ hmoved.image hmoved.follows (fun hnone => ?_) (ih hmoved.collected)
      · rw [hreach]
        refine hmoved.frame.mono fun r hr => ?_
        rcases List.mem_cons.mp hr with rfl | hr
        · exact List.mem_cons_of_mem _ (List.mem_singleton.mpr rfl)
        · exact List.mem_cons.mpr (.inl (List.mem_singleton.mp hr))
      · rw [hmoved.extent]
        exact List.mem_cons_self ..
      · rw [hmove] at hnone
        cases hnone
    | finalized hfinal hmove => exact written_of_finalized hnext hfinal hmove
  | done l p l' ho hdone =>
    have hstep := step_of_collected h p
    rw [hdone] at hstep
    cases hstep with
    | done ho hmove => exact written_of_stop (run_of_done hdone) (visits_of_done hdone) hmove
  | failed l p l' e hfailed =>
    have hstep := step_of_collected h p
    rw [hfailed] at hstep
    cases hstep with
    | failed e hmove =>
      exact written_of_stop (run_of_failed hfailed) (visits_of_failed hfailed) hmove

/-! ## the first collection -/

theorem collect_written (hm : l.memory.Disjoint) :
    l.collect.1.memory = l.memory
      ∨ ∃ d d', descriptorAt l.memory l.descriptor = .ok d ∧ d.Retired d'
        ∧ Memory.Frame [extentAt l.descriptor d] l.memory l.collect.1.memory
        ∧ descriptorAt l.collect.1.memory l.descriptor = .ok d' := by
  cases hd : descriptorAt l.memory l.descriptor with
  | error e =>
    left
    unfold collect
    dsimp only
    rw [hd]
  | ok d =>
    right
    obtain ⟨d', memory, hret, -, hframe, hstored, hout⟩ := collect_eq hm hd
    refine ⟨d, d', rfl, hret, ?_⟩
    rcases hout with ⟨-, -, hc⟩ | ⟨t, e, hc, -⟩
    · rw [hc]
      exact ⟨hframe, hstored⟩
    · rw [hc]
      exact ⟨hframe, hstored⟩

theorem byte?_of_descriptorAt {memory : Memory} {a : Address} (hm : memory.Disjoint)
    (h : descriptorAt memory a = .ok d) {i : Nat} (hi : i < d.size) :
    memory.byte? (a.val + i) = d.bytes[i]? := by
  obtain ⟨-, hread⟩ := (descriptorAt_eq_ok_iff hm).mp h
  obtain ⟨-, -, hbytes⟩ := (Memory.read_eq_ok_iff hm ..).mp hread
  rw [size_extentAt hm h] at hbytes
  exact (hbytes i hi).symm

/-- where taking out the command lines changes a byte, it is in the type of a command line -/
theorem exists_cmdline_of_retired {memory memory' : Memory} {a : Address} (hm : memory.Disjoint)
    (hd : descriptorAt memory a = .ok d) (hd' : descriptorAt memory' a = .ok d')
    (hret : d.Retired d') (hframe : Memory.Frame [extentAt a d] memory memory') {x : Nat}
    (hx : memory'.byte? x ≠ memory.byte? x) :
    ∃ t ∈ d.tags, t.isCmdline = true ∧ a.val + t.offset ≤ x ∧ x < a.val + t.offset + 4 := by
  by_contra hnone
  refine hx ?_
  by_cases hin : x ∈ extentAt a d
  · obtain ⟨i, rfl⟩ := Nat.exists_eq_add_of_le (Range.mem_iff .. |>.mp hin).1
    have htop := le_top_of_descriptorAt hm hd
    have hi : a.val + i < a.val + d.size := ((Range.mem_span_of_le htop _).mp hin).2
    have hold := byte?_of_descriptorAt hm hd (i := i) (by omega)
    have hnew := byte?_of_descriptorAt (hframe.disjoint hm) hd' (i := i) (by rw [hret.size]; omega)
    have hsame : d'.bytes[i]? = d.bytes[i]? := by
      refine hret.outside i fun t ht hc hword => hnone ⟨t, ht, hc, ?_, ?_⟩
      · show a.val + t.offset ≤ a.val + i
        omega
      · show a.val + i < a.val + t.offset + 4
        omega
    exact hnew.trans (hsame.trans hold.symm)
  · exact hframe.bytes x fun r hr => by rw [List.mem_singleton.mp hr]; exact hin

theorem prepare_stages (hm : l.memory.Disjoint) (a : Address) :
    (∃ e, l.prepare a = ((l.aim a).collect.1, .error e) ∧ l.trace a = [(.collecting, l.aim a)])
      ∨ ∃ d d', (l.aim a).Listed d (l.aim a).collect.1 d'
        ∧ l.prepare a = (l.aim a).collect.1.run .validatingPlacement
        ∧ l.trace a
          = (.collecting, l.aim a) :: (l.aim a).collect.1.visits .validatingPlacement := by
  rcases collect_cases (l := l.aim a) hm with ⟨l', e, hc⟩ | ⟨d, l', d', hc, hlisted⟩
  · rw [hc]
    exact .inl ⟨e, run_of_failed (p := .collecting) hc, visits_of_failed (p := .collecting) hc⟩
  · rw [hc]
    exact .inr ⟨d, d', hlisted, run_of_next (p := .collecting) hc,
      visits_of_next (p := .collecting) hc⟩

theorem moves_collecting (l : Loader) (vs : List (Phase × Loader)) :
    moves ((.collecting, l) :: vs) = moves vs := by
  rw [moves_cons]
  rfl

/-! ## whole runs -/

theorem prepare_frame (hm : l.memory.Disjoint) (a : Address) {x : Nat}
    (hx : (l.prepare a).1.memory.byte? x ≠ l.memory.byte? x) :
    (∃ d, descriptorAt l.memory a = .ok d ∧ x ∈ extentAt a d)
      ∨ ∃ m ∈ moves (l.trace a), x ∈ m.range := by
  rcases prepare_stages hm a with ⟨e, hrun, -⟩ | ⟨d, d', hlisted, hrun, htrace⟩
  · rw [hrun] at hx
    rcases collect_written (l := l.aim a) hm with hsame | ⟨d, d', hd, -, hframe, -⟩
    · exact absurd (congrArg (fun memory => memory.byte? x) hsame) hx
    · refine .inl ⟨d, hd, ?_⟩
      by_contra hout
      exact hx (hframe.bytes x fun r hr => by rw [List.mem_singleton.mp hr]; exact hout)
  · by_contra hnone
    obtain ⟨hextent, hmoves⟩ := not_or.mp hnone
    have hout : x ∉ extentAt a d := fun hin => hextent ⟨d, hlisted.incoming, hin⟩
    have hplace : extentAt (l.aim a).collect.1.descriptor d' = extentAt a d := by
      rw [hlisted.state]
      exact extentAt_congr hlisted.retired.size
    have hfirst := hlisted.frame.bytes x fun r hr => by
      rw [List.mem_singleton.mp hr]
      exact hout
    have hrest := (run_written hlisted.collected .validatingPlacement).frame.bytes x fun r hr => by
      rcases List.mem_cons.mp hr with rfl | hr
      · rw [hplace]
        exact hout
      · obtain ⟨m, hmem, rfl⟩ := List.mem_map.mp hr
        rw [htrace, moves_collecting] at hmoves
        exact fun hin => hmoves ⟨m, hmem, hin⟩
    rw [hrun] at hx
    exact hx (hrest.trans hfirst)

theorem trace_vacant (hm : l.memory.Disjoint) (a : Address) {v : Phase × Loader}
    (hv : v ∈ l.trace a) (hmove : v.2.move? v.1 = some m) :
    ∃ d d', descriptorAt l.memory a = .ok d ∧ descriptorAt v.2.memory v.2.descriptor = .ok d'
      ∧ v.2.image = l.image ∧ d'.framebuffers = d.framebuffers
      ∧ d'.memoryEntries = d.memoryEntries ∧ v.2.Vacant d' m := by
  rcases prepare_stages hm a with ⟨e, -, htrace⟩ | ⟨d, d₁, hlisted, -, htrace⟩
  · rw [htrace] at hv
    rw [List.mem_singleton.mp hv] at hmove
    cases hmove
  · rw [htrace] at hv
    rcases List.mem_cons.mp hv with rfl | hv
    · cases hmove
    · obtain ⟨himage, d', hcoll, hfollows⟩ :=
        (run_written hlisted.collected .validatingPlacement).chosen v hv m hmove
      refine ⟨d, d', hlisted.incoming, hcoll.stored, ?_, ?_, ?_, vacant_of_move? hcoll hmove⟩
      · rw [himage, hlisted.state]
        rfl
      · rw [hfollows.framebuffers, hlisted.retired.framebuffers]
      · rw [hfollows.memoryEntries]
        unfold Descriptor.memoryEntries
        rw [hlisted.retired.memoryMaps]

theorem prepare_untouched (hm : l.memory.Disjoint) {a : Address} {r : Range}
    (hclear : ∀ v ∈ l.trace a, ∀ m, v.2.move? v.1 = some m → m.range.overlaps r = false) {x : Nat}
    (hx : x ∈ r) (hout : ∀ d, descriptorAt l.memory a = .ok d → x ∉ extentAt a d) :
    (l.prepare a).1.memory.byte? x = l.memory.byte? x := by
  by_contra hne
  rcases prepare_frame hm a hne with ⟨d, hd, hin⟩ | ⟨m, hmem, hin⟩
  · exact hout d hd hin
  · obtain ⟨v, hv, hmove⟩ := List.mem_filterMap.mp hmem
    exact (Range.overlaps_eq_false_iff ..).mp (hclear v hv m hmove) x hin hx

theorem prepare_idle (hm : l.memory.Disjoint) {a : Address} {e : LoadError}
    (he : (l.prepare a).2 = .error e) (hnil : moves (l.trace a) = []) {x : Nat}
    (hx : (l.prepare a).1.memory.byte? x ≠ l.memory.byte? x) :
    ∃ d, descriptorAt l.memory a = .ok d ∧ ∃ t ∈ d.tags, t.isCmdline = true
      ∧ a.val + t.offset ≤ x ∧ x < a.val + t.offset + 4 := by
  -- behind the first collection nothing is written
  have hfirst : (l.prepare a).1.memory = (l.aim a).collect.1.memory := by
    rcases prepare_stages hm a with ⟨e, hrun, -⟩ | ⟨d, d', hlisted, hrun, htrace⟩
    · rw [hrun]
    · rw [htrace, moves_collecting] at hnil
      rw [hrun] at he ⊢
      exact (run_written hlisted.collected .validatingPlacement).idle e he hnil
  rw [hfirst] at hx
  rcases collect_written (l := l.aim a) hm with hsame | ⟨d, d', hd, hret, hframe, hd'⟩
  · exact absurd (congrArg (fun memory => memory.byte? x) hsame) hx
  · exact ⟨d, hd, exists_cmdline_of_retired hm hd hd' hret hframe hx⟩

/-- **Whatever comes of a run, it writes the descriptor that came in and the targets of its moves.**
A target is vacant when it is chosen, so outside of that descriptor image and framebuffers stay as
they are, and a run that fails before its first move has only changed the types of command lines. -/
theorem prepare_written (l : Loader) (a : Address) (hm : l.memory.Disjoint) :
    (∀ x : Nat, (l.prepare a).1.memory.byte? x ≠ l.memory.byte? x →
        (∃ d, descriptorAt l.memory a = .ok d ∧ x ∈ extentAt a d)
          ∨ ∃ m ∈ moves (l.trace a), x ∈ m.range)
      ∧ (∀ v ∈ l.trace a, ∀ m, v.2.move? v.1 = some m →
        ∃ d d', descriptorAt l.memory a = .ok d ∧ descriptorAt v.2.memory v.2.descriptor = .ok d'
          ∧ v.2.image = l.image ∧ d'.framebuffers = d.framebuffers
          ∧ d'.memoryEntries = d.memoryEntries ∧ v.2.Vacant d' m)
      ∧ (∀ x : Nat, x ∈ l.image → (∀ d, descriptorAt l.memory a = .ok d → x ∉ extentAt a d) →
        (l.prepare a).1.memory.byte? x = l.memory.byte? x)
      ∧ (∀ d, descriptorAt l.memory a = .ok d → ∀ f ∈ d.framebuffers, ∀ x : Nat, x ∈ f.extent →
        x ∉ extentAt a d → (l.prepare a).1.memory.byte? x = l.memory.byte? x)
      ∧ ∀ e, (l.prepare a).2 = .error e → moves (l.trace a) = [] →
        ∀ x : Nat, (l.prepare a).1.memory.byte? x ≠ l.memory.byte? x →
        ∃ d, descriptorAt l.memory a = .ok d ∧ ∃ t ∈ d.tags, t.isCmdline = true
          ∧ a.val + t.offset ≤ x ∧ x < a.val + t.offset + 4 := by
  refine ⟨fun x hx => prepare_frame hm a hx, fun v hv m hmove => trace_vacant hm a hv hmove,
    fun x hx hout => prepare_untouched hm (fun v hv m hmove => ?_) hx hout,
    fun d hd f hf x hx hout => prepare_untouched hm (fun v hv m hmove => ?_) hx fun d' hd' => ?_,
    fun e he hnil x hx => prepare_idle hm he hnil hx⟩
  · obtain ⟨d, d', -, -, himage, -, -, hvacant⟩ := trace_vacant hm a hv hmove
    rw [← himage]
    exact hvacant.image
  · obtain ⟨d', d₁, hd', -, -, hframebuffers, -, hvacant⟩ := trace_vacant hm a hv hmove
    rw [hd, Except.ok.injEq] at hd'
    rw [← hd'] at hframebuffers
    exact hvacant.framebuffers f (hframebuffers ▸ hf)
  · rw [hd, Except.ok.injEq] at hd'
    rw [← hd']
    exact hout

theorem sample_written : (sample 0x2000).memory.Disjoint ∧ ∀ x : Nat,
    ((sample 0x2000).prepare 0x2000).1.memory.byte? x ≠ (sample 0x2000).memory.byte? x →
      x ∈ Range.span 0x2000 120 ∨ x ∈ Range.span 0x7000 120 ∨ x ∈ Range.span 0x6000 4 := by
  refine ⟨sample_disjoint, fun x hx => ?_⟩
  have hd : descriptorAt (sample 0x2000).memory 0x2000 = .ok ⟨sampleDescriptor⟩ := by
    decide +kernel
  rcases (prepare_written (sample 0x2000) 0x2000 sample_disjoint).1 x hx with
    ⟨d, hd', hin⟩ | ⟨m, hmem, hin⟩
  · rw [hd, Except.ok.injEq] at hd'
    subst hd'
    have hsize : Descriptor.size ⟨sampleDescriptor⟩ = 120 := by decide +kernel
    unfold extentAt at hin
    rw [hsize] at hin
    exact .inl hin
  · rw [sample_moves, List.mem_cons, List.mem_singleton] at hmem
    rcases hmem with rfl | rfl
    · exact .inr (.inl hin)
    · exact .inr (.inr hin)

end ChainBoot.Loader
