import ChainBoot.Proofs.Settled

/-!
# Table and descriptor

A loader knows its modules twice: the table holds a record for each of them, and so do the tags of
the descriptor in memory, which is copied and edited while the table is updated beside it.
`Loader.Agrees` says that the two tell the same.

* `Collected.agrees`    they do where a collection has been, for all records;
* `Finalized.agrees`    behind the hand-off they do for all but the kernel, which has no tag any more;
* `requests_agree`      so they do at every inner phase of a run, and where it ends.
-/

namespace ChainBoot

/-- what a record says about a tag: where it stands and which bytes its module has -/
def ModuleRecord.listing (r : ModuleRecord) : Nat × UInt32 × UInt32 := (r.tagOffset, r.first, r.last)

/-- what a descriptor says about its modules, in order -/
def Descriptor.listings (d : Descriptor) : List (Nat × UInt32 × UInt32) :=
  d.modules.map fun k => (k.1, k.2.first, k.2.last)

namespace Loader

variable {l l' : Loader} {d d' : Descriptor} {k : Nat × BootModule} {n : Nat}

/-- from place `n` on, the records of the table are pending and list the modules of the descriptor
in memory -/
structure Agrees (n : Nat) (l : Loader) : Prop where
  some_record : 1 ≤ l.modules.size
  few_records : l.modules.size ≤ 32
  pending : ∀ i r, n ≤ i → l.modules.get? i = some r → r.handle = i ∧ r.state = .pending
  listed : ∃ d, descriptorAt l.memory l.descriptor = .ok d
    ∧ (l.modules.records.drop n).map ModuleRecord.listing = d.listings

theorem agrees_of_get? {ms : List (Nat × BootModule)} (hsize : l.modules.size = ms.length)
    (hsome : ms ≠ []) (hfew : ms.length ≤ ModuleTable.capacity)
    (hget : ∀ i, n ≤ i → l.modules.get? i = ms[i]?.map (ModuleRecord.ofModule i))
    (hd : descriptorAt l.memory l.descriptor = .ok d) (hms : d.modules = ms.drop n) :
    l.Agrees n where
  some_record := by
    rw [hsize]
    exact List.length_pos_iff.mpr hsome
  few_records := by
    rw [hsize]
    exact hfew
  pending := by
    intro i r hi hr
    rw [hget i hi, Option.map_eq_some_iff] at hr
    obtain ⟨m, -, rfl⟩ := hr
    exact ⟨rfl, rfl⟩
  listed := by
    refine ⟨d, hd, ?_⟩
    unfold Descriptor.listings
    rw [hms]
    apply List.ext_getElem?
    intro i
    have hrec : l.modules.records[n + i]? = ms[n + i]?.map (ModuleRecord.ofModule (n + i)) :=
      hget (n + i) (Nat.le_add_right ..)
    rw [List.getElem?_map, List.getElem?_map, List.getElem?_drop, List.getElem?_drop, hrec,
      Option.map_map]
    rfl

/-- **Behind a collection the whole table agrees with the descriptor.** -/
theorem Collected.agrees (h : l.Collected d) : l.Agrees 0 := by
  refine agrees_of_get? ?_ h.some_module h.few (fun i _ => h.get?_eq i) h.stored rfl
  rw [h.table, ModuleTable.size_ofModules]

/-- **Behind the hand-off the table agrees with the descriptor, but for the kernel.** -/
theorem Finalized.agrees {ho : HandOff} (h : l.Finalized d k l' d' ho) (hl : l.Collected d) :
    l'.Agrees 1 := by
  have hdesc : l'.descriptor = ho.descriptor := by rw [h.state, h.handOff.1]
  have hstored : descriptorAt l'.memory l'.descriptor = .ok d' := by rw [hdesc, h.stored]
  have hmodules : d'.modules = d.modules.drop 1 := by rw [h.edited.modules, List.drop_one]
  refine agrees_of_get? ?_ hl.some_module hl.few (fun i hi => ?_) hstored hmodules
  · rw [h.table]
    unfold ModuleTable.update ModuleTable.size
    rw [List.length_modify]
    exact ModuleTable.size_ofModules d.modules
  · -- the record of the kernel is the only one that is consumed
    have hne : i ≠ 0 := by omega
    rw [h.table, ModuleTable.get?_consume, if_neg hne]
    rfl

/-! ## where a run ends -/

theorem agrees_of_error (hm : l.memory.Disjoint) {a : Address} {e : LoadError} {v : Phase × Loader}
    (he : (l.prepare a).2 = .error e) (hlast : (l.trace a).getLast? = some v)
    (hinner : v.1.isInner = true) : (l.prepare a).1.Agrees 0 := by
  rcases prepare_stages hm a with ⟨e', -, htrace⟩ | ⟨d, d', hlisted, hrun, -⟩
  · rw [htrace] at hlast
    cases hlast
    cases hinner
  · rw [hrun] at he ⊢
    obtain ⟨d₁, p, hcoll, -⟩ := hlisted.settled.failed e he
    exact hcoll.agrees

theorem agrees_of_ok (hm : l.memory.Disjoint) {a : Address} {ho : HandOff}
    (hok : (l.prepare a).2 = .ok ho) : (l.prepare a).1.Agrees 1 := by
  rcases prepare_stages hm a with ⟨e, hrun, -⟩ | ⟨d, d', hlisted, hrun, -⟩
  · rw [hrun] at hok
    cases hok
  · rw [hrun] at hok ⊢
    obtain ⟨l₁, d₁, k, d₂, hcoll, hfinal⟩ := hlisted.settled.handedOver ho hok
    exact hfinal.agrees hcoll

/-- **Whatever a loader was asked for, table and descriptor agree** at every inner phase of its
runs, behind a run that fails in such a phase, and, the kernel apart, behind a hand-off. -/
theorem requests_agree (memory : Memory) (image : Range) (physMax : Address)
    (hm : memory.Disjoint) (rs : List Request) :
    (∀ v ∈ (fresh memory image physMax).history rs, v.1.isInner = true → v.2.Agrees 0)
      ∧ ∀ a : Address,
        (∀ e v, (((fresh memory image physMax).after rs).prepare a).2 = .error e →
          (((fresh memory image physMax).after rs).trace a).getLast? = some v →
          v.1.isInner = true → (((fresh memory image physMax).after rs).prepare a).1.Agrees 0)
        ∧ ∀ ho, (((fresh memory image physMax).after rs).prepare a).2 = .ok ho →
          (((fresh memory image physMax).after rs).prepare a).1.Agrees 1 := by
  have hafter : ((fresh memory image physMax).after rs).memory.Disjoint :=
    after_disjoint (l := fresh memory image physMax) hm rs
  refine ⟨fun v hv hinner => ?_, fun a => ⟨fun e v he hlast hinner => ?_, fun ho hok => ?_⟩⟩
  · obtain ⟨d, hcoll⟩ :=
      exists_collected_of_mem_history (l := fresh memory image physMax) hm hv hinner
    exact hcoll.agrees
  · exact agrees_of_error hafter he hlast hinner
  · exact agrees_of_ok hafter hok

theorem sample_agrees : (sample 0x2000).memory.Disjoint
    ∧ (∃ v ∈ (sample 0x2000).history [.prepare 0x2000],
        v.2.move? v.1 = some ⟨0x6000, 4⟩ ∧ v.2.Agrees 0)
    ∧ ((sample 0x2000).prepare 0x2000).1.Agrees 1 := by
  obtain ⟨hinner, -⟩ := requests_agree (sample 0x2000).memory (.span .zero 0) (.ofUInt32 0x8000)
    sample_disjoint [.prepare 0x2000]
  obtain ⟨-, hend⟩ := requests_agree (sample 0x2000).memory (.span .zero 0) (.ofUInt32 0x8000)
    sample_disjoint []
  have hmove : (⟨0x6000, 4⟩ : Move) ∈ moves ((sample 0x2000).trace 0x2000) := by
    rw [sample_moves]
    exact List.mem_cons_of_mem _ (List.mem_singleton.mpr rfl)
  obtain ⟨v, hv, hmoved⟩ := List.mem_filterMap.mp hmove
  have hmem : v ∈ (sample 0x2000).history [.prepare 0x2000] := by
    rw [history_cons]
    exact List.mem_append_left _ hv
  obtain ⟨l', hok⟩ := sample_prepare
  refine ⟨sample_disjoint, ⟨v, hmem, hmoved, hinner v hmem (isInner_of_move? hmoved)⟩, ?_⟩
  exact (hend 0x2000).2 _ (congrArg Prod.snd hok)

end Loader

end ChainBoot
