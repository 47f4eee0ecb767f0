import ChainBoot.Proofs.Runs

/-!
# The descriptor handed over

What a run leaves of the descriptor that it was given, wherever it was moved to and however often
its modules were moved:

* `Descriptor.Rewritten`     the bytes that a run writes: the types of command lines, the kernel's
                             two headers, the bounds of the other modules;
* `Descriptor.HandedOver`    what stands there afterwards, and that all other bytes stay;
* `Descriptor.Relisted`      what the walk then finds.

`prepare_handedOver` has all of this, for every run that hands a kernel over.
-/

namespace ChainBoot

namespace Descriptor

/-- the offsets of the bytes that a run may write -/
def Rewritten (d : Descriptor) (j : Nat) : Prop :=
  (∃ u ∈ d.tags, u.isCmdline = true ∧ u.offset ≤ j ∧ j < u.offset + 4)
    ∨ (∃ k, d.modules[0]? = some k ∧ k.1 ≤ j ∧ j < k.1 + 16)
    ∨ ∃ i p, d.modules[i]? = some p ∧ i ≠ 0
        ∧ p.1 + tagHeaderSize ≤ j ∧ j < p.1 + tagHeaderSize + 8

/-- the bytes of the descriptor `d'`, handed over with the table `t`, from those of `d` -/
structure HandedOver (d : Descriptor) (t : ModuleTable) (d' : Descriptor) : Prop where
  size : d'.size = d.size
  cmdlines : ∀ u ∈ d.tags, u.isCmdline = true →
    d'.bytes.window? u.offset 4 = some (Bytes.le32 TagType.invalid)
  kernel : ∀ k, d.modules[0]? = some k → ∃ u ∈ d.tags, u.offset = k.1
    ∧ d'.bytes.window? u.offset 16 = some (splitHeaders u.size)
  bounds : ∀ i p, d.modules[i]? = some p → i ≠ 0 → ∃ r, t.get? i = some r ∧ r.tagOffset = p.1
    ∧ d'.bytes.window? (p.1 + tagHeaderSize) 8 = some (Bytes.le32 r.first ++ Bytes.le32 r.last)
  outside : ∀ j, ¬ d.Rewritten j → d'.bytes[j]? = d.bytes[j]?

/-- the walk over the descriptor `d'`, handed over with the table `t`, from that over `d` -/
structure Relisted (d : Descriptor) (t : ModuleTable) (d' : Descriptor) : Prop where
  one_cmdline : d'.tags.countP Tag.isCmdline = 1
  cmdline : d'.cmdline? = d.modules.head?.map fun k => k.2.label
  labels : d'.labels = d.labels.tail
  bounds : ∀ i p, d'.modules[i]? = some p → ∃ r, t.get? (i + 1) = some r ∧ r.tagOffset = p.1
    ∧ r.first = p.2.first ∧ r.last = p.2.last
  memoryMaps : d'.memoryMaps = d.memoryMaps
  framebuffers : d'.framebuffers = d.framebuffers
  others : ∀ u ∈ d.tags, u.isCmdline = false → u.module? = none →
    u ∈ d'.tags ∧ d'.bytes.window? u.offset u.size = d.bytes.window? u.offset u.size

end Descriptor

/-- a record for each module; that of the kernel is consumed, all others are pending -/
structure ModuleTable.Spent (t : ModuleTable) (n : Nat) : Prop where
  size : t.size = n
  states : ∀ i r, t.get? i = some r →
    r.handle = i ∧ r.state = if i = 0 then .consumed else .pending

namespace Descriptor

variable {d d₁ d₃ d' : Descriptor} {k : Nat × BootModule} {t : ModuleTable}

section
variable (hret : d.Retired d₁) (hfol : d₁.Follows d₃) (hsplit : d₃.Split k d')
  (hk : d₃.modules[0]? = some k)
  (ht : t = (ModuleTable.ofModules d₃.modules).update 0 fun r => { r with state := .consumed })
include hret hfol hsplit

theorem mem_tags_of_edits {u : Tag} (hu : u ∈ d.tags) (hm : u.module? = none) :
    u.retire ∈ d'.tags := by
  refine hsplit.others _ ?_
  rw [hfol.others]
  exact hret.mem_others hu hm

include hk ht

theorem handedOver_of_edits : d.HandedOver t d' where
  size := by rw [hsplit.size, hfol.size, hret.size]
  cmdlines := by
    intro u hu hc
    have hm : u.module? = none := by
      refine Tag.module?_of_type_ne ?_
      rw [(Tag.isCmdline_iff u).mp hc]
      decide
    have hmem := mem_tags_of_edits hret hfol hsplit hu hm
    have hw := window?_type_of_mem hmem
    rw [Tag.retire_of_cmdline hc] at hw
    exact hw
  kernel := by
    intro p hp
    have hkp : k = p := by
      rw [hfol.kernel, hret.modules, hp] at hk
      exact (Option.some.inj hk).symm
    subst hkp
    obtain ⟨u, hu, -, ho⟩ := tag_of_module hp
    refine ⟨u, hu, ho, ?_⟩
    rw [ho]
    refine hsplit.headers u.size ?_
    rw [hfol.slots, hret.slots, ← ho]
    exact List.mem_map_of_mem hu
  bounds := by
    intro i p hp hi
    rw [← hret.modules] at hp
    obtain ⟨q, hq, hqp, -⟩ := labels_getElem? hfol.labels hp
    have htail : d'.modules[i - 1]? = some q := by
      rw [hsplit.modules, List.getElem?_tail, Nat.sub_add_cancel (Nat.pos_of_ne_zero hi), hq]
    refine ⟨{ ModuleRecord.ofModule i q with state := if i = 0 then .consumed else .pending },
      ?_, hqp, ?_⟩
    · rw [ht, ModuleTable.get?_consume, hq]
      rfl
    · rw [← hqp]
      exact window?_of_module htail
  outside := by
    intro j hj
    have hkd : d.modules[0]? = some k := by rw [← hret.modules, ← hfol.kernel, hk]
    rw [hsplit.outside j fun h => hj (.inr (.inl ⟨k, hkd, h⟩)),
      hfol.outside j fun i p hp hi h => ?_,
      hret.outside j fun u hu hc h => hj (.inl ⟨u, hu, hc, h⟩)]
    rw [hret.modules] at hp
    exact hj (.inr (.inr ⟨i, p, hp, hi, h⟩))

theorem relisted_of_edits (hclean : ∀ u ∈ d₃.tags, u.isCmdline = false) : d.Relisted t d' where
  one_cmdline := (hsplit.cmdline hclean).1
  cmdline := by
    rw [(hsplit.cmdline hclean).2, List.head?_eq_getElem?, ← hret.modules, ← hfol.kernel, hk]
    rfl
  labels := by
    have hlabels : d₁.labels = d.labels := by
      unfold labels
      rw [hret.modules]
    rw [← hlabels, ← hfol.labels]
    unfold labels
    rw [hsplit.modules, List.map_tail]
  bounds := by
    intro i p hp
    rw [hsplit.modules, List.getElem?_tail] at hp
    refine ⟨{ ModuleRecord.ofModule (i + 1) p with state := .pending }, ?_, rfl, rfl, rfl⟩
    rw [ht, ModuleTable.get?_consume, hp]
    rfl
  memoryMaps := by
    rw [hsplit.memoryMaps, memoryMaps_eq_others, hfol.others, ← memoryMaps_eq_others,
      hret.memoryMaps]
  framebuffers := by
    rw [hsplit.framebuffers, framebuffers_eq_others, hfol.others, ← framebuffers_eq_others,
      hret.framebuffers]
  others := by
    intro u hu hc hm
    have hmem := mem_tags_of_edits hret hfol hsplit hu hm
    rw [Tag.retire_of_other hc] at hmem
    exact ⟨hmem, by rw [window?_of_mem hmem, window?_of_mem hu]⟩

end

end Descriptor

namespace Loader

theorem spent_of_consume {d : Descriptor} {t : ModuleTable}
    (ht : t = (ModuleTable.ofModules d.modules).update 0 fun r => { r with state := .consumed }) :
    t.Spent d.modules.length where
  size := by
    rw [ht]
    unfold ModuleTable.size ModuleTable.update
    rw [List.length_modify]
    exact ModuleTable.size_ofModules _
  states := by
    intro i r hr
    rw [ht, ModuleTable.get?_consume, Option.map_eq_some_iff] at hr
    obtain ⟨p, -, rfl⟩ := hr
    exact ⟨rfl, rfl⟩

/-- **The descriptor handed over is the one that came in, with the edits of a run and no others.** -/
theorem prepare_handedOver {l l' : Loader} {a : Address} {ho : HandOff} (hm : l.memory.Disjoint)
    (h : l.prepare a = (l', .ok ho)) :
    ∃ d k d', descriptorAt l.memory a = .ok d ∧ d.modules[0]? = some k
      ∧ descriptorAt l'.memory ho.descriptor = .ok d'
      ∧ l.memory.read (.span a d.size) = .ok d.bytes
      ∧ l'.memory.read (.span ho.descriptor d.size) = .ok d'.bytes
      ∧ d.HandedOver l'.modules d' ∧ d.Relisted l'.modules d'
      ∧ l'.modules.Spent d.modules.length := by
  obtain ⟨d, l₁, d₁, l₂, l₃, d₃, k, d', hlisted, hdesc, -, hmods, -, hfinal⟩ := prepare_ok hm h
  have hcoll := hmods.collected (hdesc.collected hlisted.collected)
  have hfol := hmods.follows
  have hover := Descriptor.handedOver_of_edits hlisted.retired hfol hfinal.edited hfinal.listed
    hfinal.table
  have hlen : d₃.modules.length = d.modules.length := by
    have hl := congrArg List.length hfol.labels
    unfold Descriptor.labels at hl
    rw [List.length_map, List.length_map, hlisted.retired.modules] at hl
    exact hl
  obtain ⟨-, hin⟩ := (descriptorAt_eq_ok_iff hm).mp hlisted.incoming
  obtain ⟨-, hout⟩ := (descriptorAt_eq_ok_iff (hfinal.frame.disjoint hcoll.disjoint)).mp hfinal.stored
  rw [extentAt_congr hover.size] at hout
  have hk : d.modules[0]? = some k := by
    rw [← hlisted.retired.modules, ← hfol.kernel, hfinal.listed]
  refine ⟨d, k, d', hlisted.incoming, hk, hfinal.stored, hin, hout, hover, ?_, ?_⟩
  · exact Descriptor.relisted_of_edits hlisted.retired hfol hfinal.edited hfinal.listed hfinal.table
      hcoll.clean
  · rw [← hlen]
    exact spent_of_consume hfinal.table

theorem sample_handedOver : (sample 0x2000).memory.Disjoint ∧ ∃ l' d d',
    (sample 0x2000).prepare 0x2000 = (l', .ok ⟨0x7000, 0x100, bootMagic, 0x5000⟩)
      ∧ descriptorAt (sample 0x2000).memory 0x2000 = .ok d ∧ descriptorAt l'.memory 0x7000 = .ok d'
      ∧ d.HandedOver l'.modules d' ∧ d.Relisted l'.modules d'
      ∧ l'.modules.Spent d.modules.length := by
  obtain ⟨l', h⟩ := sample_prepare
  obtain ⟨d, -, d', hd, -, hd', -, -, hover, hlist, hspent⟩ := prepare_handedOver sample_disjoint h
  exact ⟨sample_disjoint, l', d, d', h, hd, hd', hover, hlist, hspent⟩

end Loader

end ChainBoot
