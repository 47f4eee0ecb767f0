import ChainBoot.Loader.Run
import ChainBoot.Proofs.Modules
import ChainBoot.Proofs.Stored

/-!
# Collecting

After a successful collection the descriptor in memory has no command line, and the table lists
its modules: `Loader.Collected`.  The descriptor differs from the one before by the types of its
command line tags alone: `Descriptor.Retired`.

* `dropCmdlines_retired`     taking out the command lines never fails;
* `collect_cases`            what comes of a collection;
* `Collected.collect`        a second collection changes nothing.
-/

namespace ChainBoot

/-- a command line tag taken out, every other tag as it is -/
def Tag.retire (t : Tag) : Tag := if t.isCmdline then { t with type := TagType.invalid } else t

namespace Tag

theorem retire_of_cmdline {t : Tag} (h : t.isCmdline = true) :
    t.retire = { t with type := TagType.invalid } := if_pos h

theorem retire_of_other {t : Tag} (h : t.isCmdline = false) : t.retire = t :=
  if_neg (by rw [h]; exact Bool.false_ne_true)

theorem isCmdline_iff (t : Tag) : t.isCmdline = true ↔ t.type = TagType.cmdline := beq_iff_eq

@[simp] theorem isCmdline_retire (t : Tag) : t.retire.isCmdline = false := by
  cases h : t.isCmdline with
  | true => rw [retire_of_cmdline h]; rfl
  | false => rw [retire_of_other h]; exact h

@[simp] theorem slot_retire (t : Tag) : t.retire.slot = t.slot := by
  unfold retire
  split <;> rfl

/-- a decoder that knows neither command lines nor invalid tags sees no difference -/
theorem decode_retire {β : Type} {g : Tag → Option β} {type : UInt32}
    (hg : ∀ t : Tag, t.type ≠ type → g t = none) (hc : TagType.cmdline ≠ type)
    (hi : TagType.invalid ≠ type) (t : Tag) : g t.retire = g t := by
  cases h : t.isCmdline with
  | true =>
    have htype : t.type = TagType.cmdline := (isCmdline_iff t).mp h
    rw [retire_of_cmdline h, hg t (by rw [htype]; exact hc)]
    exact hg _ hi
  | false => rw [retire_of_other h]

end Tag

namespace Descriptor

/-- the second descriptor is the first without its command lines -/
structure Retired (d d' : Descriptor) : Prop where
  tags : d'.tags = d.tags.map Tag.retire
  size : d'.size = d.size
  parse : parse d.bytes = .ok d → parse d'.bytes = .ok d'
  /-- only the types of command line tags are written -/
  outside : ∀ i, (∀ t ∈ d.tags, t.isCmdline = true → ¬ (t.offset ≤ i ∧ i < t.offset + 4)) →
    d'.bytes[i]? = d.bytes[i]?

theorem retired_of_clean {d : Descriptor} (h : ∀ t ∈ d.tags, t.isCmdline = false) : Retired d d where
  tags := ((List.map_congr_left fun t ht => Tag.retire_of_other (h t ht)).trans (List.map_id _)).symm
  size := rfl
  parse := id
  outside := fun _ _ => rfl

theorem retired_of_invalidate {d d' : Descriptor} {t : Tag} (ht : t ∈ d.tags)
    (hc : t.isCmdline = true) (h : Retired (d.overwrite t.offset (Bytes.le32 TagType.invalid)) d') :
    Retired d d' := by
  obtain ⟨hlo, hsize, hhi⟩ := bounds_of_mem_tags ht
  have hlen : (Bytes.le32 TagType.invalid).length = 4 := Bytes.length_le32 _
  unfold Tag.stop at hhi
  rw [tagHeaderSize] at hsize
  have hroom : t.offset + (Bytes.le32 TagType.invalid).length ≤ d.size := by omega
  have htags : (d.overwrite t.offset (Bytes.le32 TagType.invalid)).tags
      = d.tags.map fun u => if u.offset = t.offset then { u with type := TagType.invalid } else u :=
    tags_retype ht (by decide)
  refine ⟨?_, by rw [h.size, size_overwrite hroom], fun hp => h.parse (parse_overwrite hp hlo hroom),
    fun i hi => ?_⟩
  · rw [h.tags, htags, List.map_map]
    refine List.map_congr_left fun u hu => ?_
    show (if u.offset = t.offset then { u with type := TagType.invalid } else u : Tag).retire = _
    by_cases ho : u.offset = t.offset
    · obtain rfl := offset_inj hu ht ho
      rw [if_pos rfl, Tag.retire_of_cmdline hc]
      exact Tag.retire_of_other rfl
    · rw [if_neg ho]
  · rw [h.outside i fun u hu hcu => ?_]
    · show (d.bytes.overwrite t.offset (Bytes.le32 TagType.invalid))[i]? = _
      rw [Bytes.getElem?_overwrite hroom, if_neg (by rw [hlen]; exact hi t ht hc)]
    · -- a command line that is left was one before
      rw [htags] at hu
      obtain ⟨v, hv, rfl⟩ := List.mem_map.mp hu
      by_cases ho : v.offset = t.offset
      · rw [if_pos ho] at hcu
        cases hcu
      · rw [if_neg ho] at hcu ⊢
        exact hi v hv hcu

/-- **Taking out the command lines succeeds and takes out all of them.** -/
theorem dropCmdlines_retired (d : Descriptor) :
    ∃ r, d.dropCmdlines = .ok r ∧ Retired d r.descriptor := by
  fun_induction dropCmdlines d with
  | case1 d hfind =>
    refine ⟨_, rfl, retired_of_clean fun t ht => ?_⟩
    exact Bool.eq_false_iff.mpr (List.find?_eq_none.mp hfind t ht)
  | case2 d t hfind e herr =>
    rw [invalidate_of_mem (List.mem_of_find?_eq_some hfind)] at herr
    cases herr
  | case3 d t hfind d' hd' ih =>
    have ht := List.mem_of_find?_eq_some hfind
    rw [invalidate_of_mem ht, Except.ok.injEq] at hd'
    subst hd'
    obtain ⟨r, hr, hret⟩ := ih
    rw [hr]
    exact ⟨_, rfl, retired_of_invalidate ht (List.find?_some hfind) hret⟩

namespace Retired

variable {d d' : Descriptor} (h : Retired d d')
include h

theorem clean : ∀ t ∈ d'.tags, t.isCmdline = false := by
  rw [h.tags]
  intro t ht
  obtain ⟨u, -, rfl⟩ := List.mem_map.mp ht
  exact u.isCmdline_retire

theorem filterMap {β : Type} {g : Tag → Option β} (hg : ∀ t : Tag, g t.retire = g t) :
    d'.tags.filterMap g = d.tags.filterMap g := by
  rw [h.tags, List.filterMap_map]
  exact List.filterMap_congr fun t _ => hg t

theorem eq_of_clean (hclean : ∀ t ∈ d.tags, t.isCmdline = false) : d' = d := by
  have hbytes : d'.bytes = d.bytes := by
    refine List.ext_getElem? fun i => h.outside i fun t ht hc => ?_
    rw [hclean t ht] at hc
    cases hc
  cases d
  cases d'
  cases hbytes
  rfl

theorem modules : d'.modules = d.modules :=
  h.filterMap (Tag.decode_retire (fun _ => Tag.module?_of_type_ne) (by decide) (by decide))

theorem memoryMaps : d'.memoryMaps = d.memoryMaps :=
  h.filterMap (Tag.decode_retire (fun _ => Tag.memoryMap?_of_type_ne) (by decide) (by decide))

theorem framebuffers : d'.framebuffers = d.framebuffers :=
  h.filterMap (Tag.decode_retire (fun _ => Tag.framebuffer?_of_type_ne) (by decide) (by decide))

theorem slots : d'.slots = d.slots := by
  unfold Descriptor.slots
  rw [h.tags, List.map_map]
  exact List.map_congr_left fun t _ => t.slot_retire

theorem mem_others {t : Tag} (ht : t ∈ d.tags) (hm : t.module? = none) : t.retire ∈ d'.others := by
  refine (mem_others_iff _).mpr ⟨?_, ?_⟩
  · rw [h.tags]
    exact List.mem_map_of_mem ht
  · rw [← hm]
    exact Tag.decode_retire (fun _ => Tag.module?_of_type_ne) (by decide) (by decide) t

end Retired

end Descriptor

/-! ## the state behind a collection -/

namespace Loader

/-- a descriptor at the address where the loader looks for it -/
def place (l : Loader) (d : Descriptor) : Located := ⟨l.descriptor, d⟩

/-- the descriptor in memory and the table agree -/
structure Collected (l : Loader) (d : Descriptor) : Prop where
  disjoint : l.memory.Disjoint
  stored : descriptorAt l.memory l.descriptor = .ok d
  clean : ∀ t ∈ d.tags, t.isCmdline = false
  table : l.modules = .ofModules d.modules
  some_module : d.modules ≠ []
  few : d.modules.length ≤ ModuleTable.capacity

/-- where there is no descriptor the table is emptied all the same -/
theorem collect_of_error {l : Loader} {e : LoadError}
    (hd : descriptorAt l.memory l.descriptor = .error e) :
    l.collect = ({ l with modules := .empty }, .failed e) := by
  unfold collect
  dsimp only
  rw [hd]

theorem collect_of_write {l : Loader} {d : Descriptor} {r : Descriptor.Dropped} {m : Memory}
    (hd : descriptorAt l.memory l.descriptor = .ok d) (hr : d.dropCmdlines = .ok r)
    (hw : l.memory.write l.descriptor r.descriptor.bytes = .ok m) :
    l.collect = ({ l with memory := m,
                          modules := (ModuleTable.empty.pushAll r.descriptor.modules).1 },
      if !(ModuleTable.empty.pushAll r.descriptor.modules).2 then .failed .capacityExceeded
      else if (ModuleTable.empty.pushAll r.descriptor.modules).1.isEmpty then .failed .noModule
      else .next .validatingPlacement) := by
  unfold collect
  dsimp only
  rw [hd]
  dsimp only
  rw [hr]
  dsimp only
  rw [hw]
  dsimp only
  split
  · rfl
  · split <;> rfl

theorem collect_eq {l : Loader} {d : Descriptor} (hm : l.memory.Disjoint)
    (hd : descriptorAt l.memory l.descriptor = .ok d) :
    ∃ d' m, d.Retired d' ∧ l.memory.write l.descriptor d'.bytes = .ok m
      ∧ Memory.Frame [extentAt l.descriptor d] l.memory m ∧ descriptorAt m l.descriptor = .ok d'
      ∧ (d'.modules ≠ [] ∧ d'.modules.length ≤ ModuleTable.capacity
          ∧ l.collect = ({ l with memory := m, modules := .ofModules d'.modules },
              .next .validatingPlacement)
        ∨ ∃ t e, l.collect = ({ l with memory := m, modules := t }, .failed e)
          ∧ (d'.modules = [] ∧ e = .noModule
            ∨ ModuleTable.capacity < d'.modules.length ∧ e = .capacityExceeded)) := by
  obtain ⟨r, hr, hret⟩ := d.dropCmdlines_retired
  obtain ⟨hparse, -⟩ := (descriptorAt_eq_ok_iff hm).mp hd
  obtain ⟨m, hw, hframe, hread⟩ := descriptorAt_write hm hd (hret.parse hparse) hret.size
  refine ⟨r.descriptor, m, hret, hw, hframe, hread, ?_⟩
  rw [collect_of_write hd hr hw]
  rcases ModuleTable.pushAll_ofModules r.descriptor.modules [] (Nat.zero_le _) with
    ⟨hlen, hpush⟩ | ⟨hlen, hfull⟩
  · have hempty : (ModuleTable.empty).pushAll r.descriptor.modules
        = (.ofModules r.descriptor.modules, true) := hpush
    rw [hempty]
    by_cases hnil : r.descriptor.modules = []
    · refine .inr ⟨.ofModules r.descriptor.modules, .noModule, ?_, .inl ⟨hnil, rfl⟩⟩
      rw [hnil]
      rfl
    · refine .inl ⟨hnil, hlen, ?_⟩
      have hne : (ModuleTable.ofModules r.descriptor.modules).isEmpty = false := by
        unfold ModuleTable.isEmpty ModuleTable.ofModules
        rw [List.isEmpty_eq_false_iff]
        exact fun h => hnil (List.mapIdx_eq_nil_iff.mp h)
      rw [hne]
      rfl
  · have hempty : ((ModuleTable.empty).pushAll r.descriptor.modules).2 = false := hfull
    refine .inr ⟨((ModuleTable.empty).pushAll r.descriptor.modules).1, .capacityExceeded, ?_,
      .inr ⟨hlen, rfl⟩⟩
    rw [hempty]
    rfl

theorem collect_of_clean {l : Loader} {d : Descriptor} (hm : l.memory.Disjoint)
    (hd : descriptorAt l.memory l.descriptor = .ok d) (hclean : ∀ t ∈ d.tags, t.isCmdline = false)
    (hsome : d.modules ≠ []) (hfew : d.modules.length ≤ ModuleTable.capacity) :
    l.collect = ({ l with modules := .ofModules d.modules }, .next .validatingPlacement) := by
  obtain ⟨d', m, hret, hw, -, -, hout⟩ := collect_eq hm hd
  obtain rfl : d' = d := hret.eq_of_clean hclean
  obtain ⟨-, hread⟩ := (descriptorAt_eq_ok_iff hm).mp hd
  rw [Memory.write_self (le_top_of_descriptorAt hm hd) hread, Except.ok.injEq] at hw
  subst hw
  rcases hout with ⟨-, -, hc⟩ | ⟨-, -, -, ⟨hnil, -⟩ | ⟨hfull, -⟩⟩
  · exact hc
  · exact absurd hnil hsome
  · exact absurd hfew (Nat.not_le.mpr hfull)

/-- the command lines were taken out in place, and the modules were listed -/
structure Listed (l : Loader) (d : Descriptor) (l' : Loader) (d' : Descriptor) : Prop where
  incoming : descriptorAt l.memory l.descriptor = .ok d
  retired : d.Retired d'
  collected : l'.Collected d'
  frame : Memory.Frame [extentAt l.descriptor d] l.memory l'.memory
  state : l' = { l with memory := l'.memory, modules := l'.modules }

/-- **A collection fails, or it lists the modules of a descriptor without command lines.** -/
theorem collect_cases {l : Loader} (hm : l.memory.Disjoint) :
    (∃ l' e, l.collect = (l', .failed e))
      ∨ ∃ d l' d', l.collect = (l', .next .validatingPlacement) ∧ l.Listed d l' d' := by
  cases hd : descriptorAt l.memory l.descriptor with
  | error e => exact .inl ⟨{ l with modules := .empty }, e, collect_of_error hd⟩
  | ok d =>
    obtain ⟨d', m, hret, -, hframe, hread, hout⟩ := collect_eq hm hd
    rcases hout with ⟨hne, hlen, hc⟩ | ⟨t, e, hc, -⟩
    · exact .inr ⟨d, _, d', hc, ⟨hd, hret, ⟨hframe.disjoint hm, hread, hret.clean, rfl, hne, hlen⟩,
        hframe, rfl⟩⟩
    · exact .inl ⟨_, e, hc⟩

namespace Collected

variable {l : Loader} {d : Descriptor} (h : l.Collected d)
include h

theorem located_eq : l.located = .ok (l.place d) := by
  unfold located
  rw [h.stored]
  rfl

theorem collect : l.collect = (l, .next .validatingPlacement) := by
  rw [collect_of_clean h.disjoint h.stored h.clean h.some_module h.few, ← h.table]

end Collected

end Loader

end ChainBoot
