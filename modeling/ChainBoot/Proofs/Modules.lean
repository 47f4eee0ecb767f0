import Mathlib.Data.List.Infix
import ChainBoot.Loader.Step
import ChainBoot.Proofs.Edits

/-!
# The modules of a descriptor

A module stands at a place of the list `Descriptor.modules`; `Descriptor.others` are the tags that
list none.  New bounds for the module at a place change the descriptor as `Descriptor.Rebound`
says, and the table of the modules, `ModuleTable.ofModules`, follows.

* `rebound_of_module`        new bounds can be given to every module;
* `split_of_module`          the first module can be turned into the command line;
* `update_ofModules`         the table after new bounds, and `get?_consume` after the split;
* `conflict?_ofModules`      a module in the way, and `conflict?_eq_none_iff` that there is none.
-/

namespace ChainBoot

/-- the offset and the size of a tag -/
def Tag.slot (t : Tag) : Nat × Nat := (t.offset, t.size)

namespace Descriptor

/-- where the tags stand -/
def slots (d : Descriptor) : List (Nat × Nat) := d.tags.map Tag.slot

variable {d d' : Descriptor} {i : Nat} {p : Nat × BootModule}

theorem pairwise_modules (d : Descriptor) : d.modules.Pairwise fun p q => p.1 < q.1 := by
  refine List.Pairwise.filterMap _ (fun t u hlt p hp q hq => ?_) d.pairwise_tags
  obtain ⟨-, ht, -⟩ := (Tag.module?_eq_some_iff p).mp hp
  obtain ⟨-, hu, -⟩ := (Tag.module?_eq_some_iff q).mp hq
  unfold Tag.stop Tag.size at hlt
  rw [tagHeaderSize] at hlt
  omega

theorem tag_of_module (h : d.modules[i]? = some p) :
    ∃ t ∈ d.tags, t.module? = some p ∧ t.offset = p.1 := by
  obtain ⟨t, ht, hm⟩ := (mem_modules_iff p).mp (List.mem_of_getElem? h)
  obtain ⟨-, ho, -⟩ := (Tag.module?_eq_some_iff p).mp hm
  exact ⟨t, ht, hm, ho.symm⟩

theorem modules_inj {j : Nat} {q : Nat × BootModule} (hp : d.modules[i]? = some p)
    (hq : d.modules[j]? = some q) (h : p.1 = q.1) : i = j := by
  have hpair := List.pairwise_iff_getElem.mp d.pairwise_modules
  obtain ⟨hi, rfl⟩ := List.getElem?_eq_some_iff.mp hp
  obtain ⟨hj, rfl⟩ := List.getElem?_eq_some_iff.mp hq
  rcases Nat.lt_trichotomy i j with hlt | heq | hgt
  · have := hpair i j hi hj hlt
    omega
  · exact heq
  · have := hpair j i hj hi hgt
    omega

theorem window?_of_module (h : d.modules[i]? = some p) :
    d.bytes.window? (p.1 + tagHeaderSize) 8
      = some (Bytes.le32 p.2.first ++ Bytes.le32 p.2.last) := by
  obtain ⟨t, ht, hm, ho⟩ := tag_of_module h
  obtain ⟨-, -, hread⟩ := (Tag.module?_eq_some_iff p).mp hm
  obtain ⟨hp, -⟩ := (BootModule.read?_eq_some_iff ..).mp hread
  obtain ⟨pre, tail, hbytes, hpre, -⟩ := tags_splice ht
  have hpieces : d.bytes = (pre ++ (Bytes.le32 t.type ++ Bytes.le32 (UInt32.ofNat t.size)))
      ++ (Bytes.le32 p.2.first ++ Bytes.le32 p.2.last) ++ (t.payload.drop 8 ++ tail) := by
    rw [hbytes, Tag.encode]
    conv_lhs => rw [hp]
    simp only [List.append_assoc]
  rw [hpieces]
  refine Bytes.window?_append ?_ ?_
  · rw [List.length_append, List.length_append, Bytes.length_le32, Bytes.length_le32, hpre, ho]
    rfl
  · rw [List.length_append, Bytes.length_le32, Bytes.length_le32]

/-! ## tags that list no module -/

/-- the tags that list no module -/
def others (d : Descriptor) : List Tag := d.tags.filter fun t => t.module?.isNone

theorem mem_others_iff (t : Tag) : t ∈ d.others ↔ t ∈ d.tags ∧ t.module? = none := by
  unfold others
  rw [List.mem_filter, Option.isNone_iff_eq_none]

/-- what is read from other tags than modules -/
theorem filterMap_others {β : Type} {g : Tag → Option β}
    (hg : ∀ t p, t.module? = some p → g t = none) : d.tags.filterMap g = d.others.filterMap g := by
  unfold others
  rw [List.filterMap_filter]
  refine List.filterMap_congr fun t _ => ?_
  cases hm : t.module? with
  | none => rfl
  | some p => exact hg t p hm

theorem memoryMaps_eq_others (d : Descriptor) : d.memoryMaps = d.others.filterMap Tag.memoryMap? := by
  refine filterMap_others fun t p hp => Tag.memoryMap?_of_type_ne ?_
  obtain ⟨htype, -⟩ := (Tag.module?_eq_some_iff p).mp hp
  rw [htype]
  decide

theorem framebuffers_eq_others (d : Descriptor) :
    d.framebuffers = d.others.filterMap Tag.framebuffer? := by
  refine filterMap_others fun t p hp => Tag.framebuffer?_of_type_ne ?_
  obtain ⟨htype, -⟩ := (Tag.module?_eq_some_iff p).mp hp
  rw [htype]
  decide

theorem isCmdline_of_module {t : Tag} (h : t.module? = some p) : t.isCmdline = false := by
  obtain ⟨htype, -⟩ := (Tag.module?_eq_some_iff p).mp h
  unfold Tag.isCmdline
  rw [htype]
  decide

theorem clean_iff_others :
    (∀ t ∈ d.tags, t.isCmdline = false) ↔ ∀ t ∈ d.others, t.isCmdline = false := by
  constructor
  · intro h t ht
    exact h t ((mem_others_iff t).mp ht).1
  · intro h t ht
    cases hm : t.module? with
    | none => exact h t ((mem_others_iff t).mpr ⟨ht, hm⟩)
    | some p => exact isCmdline_of_module hm

/-! ## new bounds for a module -/

/-- the descriptor with other bounds for the module whose tag starts at an offset -/
def rebound (d : Descriptor) (offset : Nat) (first last : UInt32) : Descriptor :=
  d.overwrite (offset + tagHeaderSize) (Bytes.le32 first ++ Bytes.le32 last)

/-- the second descriptor is the first with other bounds for the module at place `i` -/
structure Rebound (d : Descriptor) (i : Nat) (p : Nat × BootModule) (q : BootModule)
    (d' : Descriptor) : Prop where
  size : d'.size = d.size
  parse : parse d.bytes = .ok d → parse d'.bytes = .ok d'
  slots : d'.slots = d.slots
  modules : d'.modules = d.modules.set i (p.1, q)
  others : d'.others = d.others
  outside : ∀ j, ¬ (p.1 + tagHeaderSize ≤ j ∧ j < p.1 + tagHeaderSize + 8) →
    d'.bytes[j]? = d.bytes[j]?

section
variable (h : d.modules[i]? = some p) (first last : UInt32)
include h

theorem tags_rebound : ∃ t ∈ d.tags, t.module? = some p ∧ t.offset = p.1 ∧ 8 ≤ t.payload.length
    ∧ (d.rebound p.1 first last).tags
        = d.tags.map fun u => if u.offset = t.offset then t.withRange first last else u := by
  obtain ⟨t, ht, hm, ho⟩ := tag_of_module h
  obtain ⟨-, -, hread⟩ := (Tag.module?_eq_some_iff p).mp hm
  have hpay := BootModule.length_of_read? hread
  refine ⟨t, ht, hm, ho, hpay, ?_⟩
  rw [← ho]
  exact tags_withRange ht hpay first last

theorem slots_rebound : (d.rebound p.1 first last).slots = d.slots := by
  obtain ⟨t, ht, -, -, hpay, htags⟩ := tags_rebound h first last
  unfold slots
  rw [htags, List.map_map]
  refine List.map_congr_left fun u hu => ?_
  show (if u.offset = t.offset then t.withRange first last else u).slot = u.slot
  by_cases hu' : u.offset = t.offset
  · rw [if_pos hu', offset_inj hu ht hu']
    exact congrArg (Prod.mk t.offset) (Tag.size_withRange hpay first last)
  · rw [if_neg hu']

theorem modules_rebound : (d.rebound p.1 first last).modules
    = d.modules.set i (p.1, { p.2 with first := first, last := last }) := by
  obtain ⟨t, ht, hm, ho, -, htags⟩ := tags_rebound h first last
  show (tags _).filterMap Tag.module? = _
  rw [htags, modules_withRange ht hm]
  apply List.ext_getElem?
  intro j
  rw [List.getElem?_map, List.getElem?_set]
  by_cases hij : i = j
  · subst hij
    obtain ⟨hi, -⟩ := List.getElem?_eq_some_iff.mp h
    rw [if_pos rfl, if_pos hi, h, Option.map_some, if_pos ho.symm]
  · rw [if_neg hij]
    cases hq : d.modules[j]? with
    | none => rfl
    | some q =>
      have hne : ¬ q.1 = t.offset := fun he => hij (modules_inj h hq (ho.symm.trans he.symm))
      rw [Option.map_some, if_neg hne]

theorem others_rebound : (d.rebound p.1 first last).others = d.others := by
  obtain ⟨t, ht, hm, -, -, htags⟩ := tags_rebound h first last
  -- the tag with the new bounds is a module as well
  have hnone : (t.withRange first last).module?.isNone = false := by
    obtain ⟨htype, -⟩ := (Tag.module?_eq_some_iff p).mp hm
    have htype' : (t.withRange first last).type = TagType.module := htype
    rw [Tag.module?_of_type htype']
    unfold Tag.withRange
    rw [BootModule.read?_append]
    rfl
  unfold others
  rw [htags, map_replace_eq_flatMap, ← List.filterMap_eq_filter]
  refine filterMap_replace ht ?_
  rw [List.filterMap_eq_filter, List.filter_cons_of_neg (by rw [hnone]; exact Bool.false_ne_true),
    List.filter_cons_of_neg (by rw [hm]; exact Bool.false_ne_true)]

/-- **New bounds can be given to every module.** -/
theorem rebound_of_module : d.setModuleRange p.1 first last = .ok (d.rebound p.1 first last)
    ∧ Rebound d i p { p.2 with first := first, last := last } (d.rebound p.1 first last) := by
  obtain ⟨t, ht, hm, ho, hpay, -⟩ := tags_rebound h first last
  obtain ⟨hlo, -, hhi⟩ := bounds_of_mem_tags ht
  have hlen : (Bytes.le32 first ++ Bytes.le32 last).length = 8 := by
    rw [List.length_append, Bytes.length_le32, Bytes.length_le32]
  have hroom : p.1 + tagHeaderSize + (Bytes.le32 first ++ Bytes.le32 last).length ≤ d.size := by
    unfold Tag.stop Tag.size at hhi
    omega
  have hfront : headerSize ≤ p.1 + tagHeaderSize := by
    rw [← ho]
    exact Nat.le_add_right_of_le hlo
  refine ⟨?_, ⟨size_overwrite hroom, fun hp => parse_overwrite hp hfront hroom,
    slots_rebound h first last, modules_rebound h first last, others_rebound h first last,
    fun j hj => ?_⟩⟩
  · rw [← ho]
    exact setModuleRange_of_mem ht hm first last
  · show (d.bytes.overwrite (p.1 + tagHeaderSize) _)[j]? = _
    rw [Bytes.getElem?_overwrite hroom, if_neg (by rw [hlen]; exact hj)]

end

/-! ## what any number of new bounds keeps -/

/-- the modules without their bounds -/
def labels (d : Descriptor) : List (Nat × String) := d.modules.map fun p => (p.1, p.2.label)

/-- the second descriptor is the first with other bounds for some of its modules, the kernel, the
first one, apart -/
structure Follows (d d' : Descriptor) : Prop where
  size : d'.size = d.size
  slots : d'.slots = d.slots
  others : d'.others = d.others
  kernel : d'.modules[0]? = d.modules[0]?
  labels : d'.labels = d.labels
  outside : ∀ j, (∀ i p, d.modules[i]? = some p → i ≠ 0 →
    ¬ (p.1 + tagHeaderSize ≤ j ∧ j < p.1 + tagHeaderSize + 8)) → d'.bytes[j]? = d.bytes[j]?

theorem labels_getElem? (h : d'.labels = d.labels) (hp : d.modules[i]? = some p) :
    ∃ q, d'.modules[i]? = some q ∧ q.1 = p.1 ∧ q.2.label = p.2.label := by
  have hi := congrArg (fun ls : List (Nat × String) => ls[i]?) h
  dsimp only [Descriptor.labels] at hi
  rw [List.getElem?_map, List.getElem?_map, hp, Option.map_some, Option.map_eq_some_iff] at hi
  obtain ⟨q, hq, he⟩ := hi
  obtain ⟨h1, h2⟩ := Prod.mk.inj he
  exact ⟨q, hq, h1, h2⟩

theorem Rebound.follows {q : BootModule} (h : d.Rebound i p q d') (hp : d.modules[i]? = some p)
    (hi : i ≠ 0) (hq : q.label = p.2.label) : d.Follows d' where
  size := h.size
  slots := h.slots
  others := h.others
  kernel := by rw [h.modules, List.getElem?_set_ne hi]
  labels := by
    unfold Descriptor.labels
    rw [h.modules]
    apply List.ext_getElem?
    intro j
    rw [List.getElem?_map, List.getElem?_map]
    by_cases hij : i = j
    · subst hij
      obtain ⟨hlt, -⟩ := List.getElem?_eq_some_iff.mp hp
      rw [List.getElem?_set_self hlt, hp, Option.map_some, Option.map_some, hq]
    · rw [List.getElem?_set_ne hij]
  outside := fun j hj => h.outside j (hj i p hp hi)

namespace Follows

theorem refl (d : Descriptor) : d.Follows d := ⟨rfl, rfl, rfl, rfl, rfl, fun _ _ => rfl⟩

theorem trans {d'' : Descriptor} (h : d.Follows d') (h' : d'.Follows d'') : d.Follows d'' where
  size := h'.size.trans h.size
  slots := h'.slots.trans h.slots
  others := h'.others.trans h.others
  kernel := h'.kernel.trans h.kernel
  labels := h'.labels.trans h.labels
  outside := by
    intro j hj
    rw [h'.outside j fun i q hq hi => ?_, h.outside j hj]
    -- the tag stands where it stood before
    obtain ⟨p, hp, hpq, -⟩ := labels_getElem? h.labels.symm hq
    rw [← hpq]
    exact hj i p hp hi

theorem memoryEntries (h : d.Follows d') : d'.memoryEntries = d.memoryEntries := by
  unfold Descriptor.memoryEntries
  rw [memoryMaps_eq_others, memoryMaps_eq_others, h.others]

theorem framebuffers (h : d.Follows d') : d'.framebuffers = d.framebuffers := by
  rw [framebuffers_eq_others, framebuffers_eq_others, h.others]

end Follows

/-! ## the kernel's tag -/

theorem filterMap_split {β : Type} {g : Tag → Option β} {type : UInt32} {t : Tag}
    (hg : ∀ u : Tag, u.type ≠ type → g u = none) (ht : t.type ≠ type)
    (hi : TagType.invalid ≠ type) (hc : TagType.cmdline ≠ type) :
    t.split.filterMap g = [t].filterMap g := by
  unfold Tag.split
  rw [List.filterMap_cons_none (hg _ hi), List.filterMap_cons_none (hg _ hc),
    List.filterMap_cons_none (hg _ ht)]

theorem modules_filter_head {k : Nat × BootModule} (h : d.modules[0]? = some k) :
    (d.modules.filter fun q => q.1 ≠ k.1) = d.modules.tail := by
  have hpair := d.pairwise_modules
  cases hms : d.modules with
  | nil => rfl
  | cons p ms =>
    rw [hms] at h hpair
    obtain rfl : p = k := Option.some.inj h
    rw [List.filter_cons_of_neg (by rw [decide_eq_true_iff]; exact fun h => h rfl), List.tail_cons]
    refine List.filter_eq_self.mpr fun q hq => ?_
    rw [decide_eq_true_iff]
    have := List.rel_of_pairwise_cons hpair hq
    omega

/-- the second descriptor is the first with the tag of its first module, the kernel, turned into
a command line -/
structure Split (d : Descriptor) (k : Nat × BootModule) (d' : Descriptor) : Prop where
  size : d'.size = d.size
  parse : parse d.bytes = .ok d → parse d'.bytes = .ok d'
  modules : d'.modules = d.modules.tail
  others : ∀ t ∈ d.others, t ∈ d'.tags
  memoryMaps : d'.memoryMaps = d.memoryMaps
  framebuffers : d'.framebuffers = d.framebuffers
  /-- the label becomes the only command line -/
  cmdline : (∀ t ∈ d.tags, t.isCmdline = false) →
    d'.tags.countP Tag.isCmdline = 1 ∧ d'.cmdline? = some k.2.label
  headers : ∀ n, (k.1, n) ∈ d.slots → d'.bytes.window? k.1 16 = some (splitHeaders n)
  outside : ∀ j, ¬ (k.1 ≤ j ∧ j < k.1 + 16) → d'.bytes[j]? = d.bytes[j]?

theorem cmdline?_of_split {t : Tag} {pre post : List Tag} (htags : d'.tags = pre ++ t.split ++ post)
    (hpre : ∀ u ∈ pre, ¬ u.isCmdline = true) :
    d'.cmdline? = some (Bytes.cString (t.payload.drop 8)) := by
  have hfind : t.split.find? Tag.isCmdline
      = some ⟨t.offset + tagHeaderSize, TagType.cmdline, t.payload.drop 8⟩ := rfl
  unfold cmdline?
  rw [htags, List.find?_append, List.find?_append, List.find?_eq_none.mpr hpre, hfind]
  rfl

/-- where there was no command line before, the one behind the split is the only one -/
theorem cmdline_split {t : Tag} (ht : t ∈ d.tags) (hclean : ∀ u ∈ d.tags, u.isCmdline = false)
    (htags : d'.tags = d.tags.flatMap fun u => if u.offset = t.offset then t.split else [u]) :
    d'.tags.countP Tag.isCmdline = 1
      ∧ d'.cmdline? = some (Bytes.cString (t.payload.drop 8)) := by
  obtain ⟨pre, post, hold⟩ := List.append_of_mem ht
  rw [flatMap_replace hold] at htags
  have hclear : ∀ us : List Tag, (∀ u ∈ us, u ∈ d.tags) → ∀ u ∈ us, ¬ u.isCmdline = true := by
    intro us hus u hu
    rw [hclean u (hus u hu)]
    exact Bool.false_ne_true
  have hpre := hclear pre fun u hu => by
    rw [hold]
    exact List.mem_append_left _ hu
  have hpost := hclear post fun u hu => by
    rw [hold]
    exact List.mem_append_right _ (List.mem_cons_of_mem _ hu)
  have hcount : t.split.countP Tag.isCmdline = 1 := rfl
  constructor
  · rw [htags, List.countP_append, List.countP_append, List.countP_eq_zero.mpr hpre,
      List.countP_eq_zero.mpr hpost, hcount]
  · exact cmdline?_of_split htags hpre

/-- **The first module can be turned into the command line.** -/
theorem split_of_module {k : Nat × BootModule} (h : d.modules[0]? = some k) :
    ∃ d', d.moduleToCmdline k.1 = .ok d' ∧ d.Split k d' := by
  obtain ⟨t, ht, hm, ho⟩ := tag_of_module h
  obtain ⟨htype, -, hread⟩ := (Tag.module?_eq_some_iff k).mp hm
  obtain ⟨hlo, -, hhi⟩ := bounds_of_mem_tags ht
  obtain ⟨-, hlabel⟩ := (BootModule.read?_eq_some_iff ..).mp hread
  have hpay := BootModule.length_of_read? hread
  have hlen : (splitHeaders t.size).length = 16 := by
    unfold splitHeaders
    simp only [List.length_append, Bytes.length_le32]
  have hroom : t.offset + (splitHeaders t.size).length ≤ d.size := by
    unfold Tag.stop Tag.size at hhi
    rw [tagHeaderSize] at hhi
    omega
  have htags := tags_split ht hpay
  have hother : ∀ {β : Type} {g : Tag → Option β}, t.split.filterMap g = [t].filterMap g →
      (tags (d.overwrite t.offset (splitHeaders t.size))).filterMap g = d.tags.filterMap g :=
    fun hg => by rw [htags]; exact filterMap_replace ht hg
  refine ⟨d.overwrite t.offset (splitHeaders t.size), ?_, ⟨size_overwrite hroom,
    fun hp => parse_overwrite hp hlo hroom, ?_, fun u hu => ?_, hother ?_, hother ?_, fun hclean => ?_,
    fun n hn => ?_, fun j hj => ?_⟩⟩
  · rw [← ho]
    exact moduleToCmdline_of_mem ht hm
  · show (tags _).filterMap Tag.module? = _
    rw [htags, modules_split ht hm, ho]
    exact modules_filter_head h
  · obtain ⟨humem, hunone⟩ := (mem_others_iff u).mp hu
    have hne : u.offset ≠ t.offset := by
      intro he
      rw [offset_inj humem ht he, hm] at hunone
      cases hunone
    rw [htags, List.mem_flatMap]
    exact ⟨u, humem, by rw [if_neg hne]; exact List.mem_singleton.mpr rfl⟩
  · exact filterMap_split (fun u => Tag.memoryMap?_of_type_ne) (by rw [htype]; decide) (by decide)
      (by decide)
  · exact filterMap_split (fun u => Tag.framebuffer?_of_type_ne) (by rw [htype]; decide) (by decide)
      (by decide)
  · rw [hlabel]
    exact cmdline_split ht hclean htags
  · obtain ⟨u, hu, hslot⟩ := List.mem_map.mp hn
    obtain ⟨huo, rfl⟩ := Prod.mk.inj hslot
    obtain rfl := offset_inj hu ht (huo.trans ho.symm)
    rw [← huo, ← hlen]
    exact Bytes.window?_overwrite hroom
  · show (d.bytes.overwrite t.offset _)[j]? = _
    rw [Bytes.getElem?_overwrite hroom, if_neg (by rw [hlen, ho]; exact hj)]

end Descriptor

/-! ## tables -/

/-- the pending record of the module at a place of a list -/
def ModuleRecord.ofModule (i : Nat) (p : Nat × BootModule) : ModuleRecord :=
  ⟨i, p.1, p.2.first, p.2.last, .pending⟩

/-- the table of a list of modules -/
def ModuleTable.ofModules (ms : List (Nat × BootModule)) : ModuleTable :=
  ⟨ms.mapIdx ModuleRecord.ofModule⟩

namespace ModuleTable

@[simp] theorem size_ofModules (ms : List (Nat × BootModule)) : (ofModules ms).size = ms.length :=
  List.length_mapIdx

@[simp] theorem get?_ofModules (ms : List (Nat × BootModule)) (i : Nat) :
    (ofModules ms).get? i = ms[i]?.map (ModuleRecord.ofModule i) := List.getElem?_mapIdx

theorem push_ofModules {ms : List (Nat × BootModule)} (h : ms.length < capacity)
    (p : Nat × BootModule) :
    (ofModules ms).push p.1 p.2.first p.2.last = some (ofModules (ms ++ [p])) := by
  unfold push
  rw [size_ofModules, if_pos h]
  unfold ofModules
  rw [List.mapIdx_concat]
  rfl

/-- all modules are listed if there is room, and the run stops otherwise -/
theorem pushAll_ofModules (ms : List (Nat × BootModule)) : ∀ pre : List (Nat × BootModule),
    pre.length ≤ capacity →
    (pre ++ ms).length ≤ capacity ∧ (ofModules pre).pushAll ms = (ofModules (pre ++ ms), true)
      ∨ capacity < (pre ++ ms).length ∧ ((ofModules pre).pushAll ms).2 = false := by
  induction ms with
  | nil =>
    intro pre hpre
    rw [List.append_nil]
    exact .inl ⟨hpre, rfl⟩
  | cons p ms ih =>
    intro pre hpre
    by_cases hlt : pre.length < capacity
    · have hstep : (ofModules pre).pushAll (p :: ms) = (ofModules (pre ++ [p])).pushAll ms := by
        rw [pushAll, push_ofModules hlt]
      have hlen : (pre ++ [p]).length ≤ capacity := by
        rw [List.length_append, List.length_singleton]
        omega
      have hall : pre ++ p :: ms = pre ++ [p] ++ ms := by rw [List.append_assoc]; rfl
      rw [hstep, hall]
      exact ih (pre ++ [p]) hlen
    · refine .inr ⟨?_, ?_⟩
      · rw [List.length_append, List.length_cons]
        omega
      · have hnone : (ofModules pre).push p.1 p.2.first p.2.last = none := by
          unfold push
          rw [size_ofModules, if_neg hlt]
        rw [pushAll, hnone]

theorem update_ofModules {ms : List (Nat × BootModule)} {i : Nat} {p : Nat × BootModule}
    (h : ms[i]? = some p) (first last : UInt32) :
    (ofModules ms).update i (fun r => { r with first := first, last := last })
      = ofModules (ms.set i (p.1, { p.2 with first := first, last := last })) := by
  obtain ⟨hi, -⟩ := List.getElem?_eq_some_iff.mp h
  unfold update ofModules
  congr 1
  apply List.ext_getElem?
  intro j
  rw [List.getElem?_modify, List.getElem?_mapIdx, List.getElem?_mapIdx, List.getElem?_set]
  by_cases hij : i = j
  · subst hij
    rw [if_pos rfl, if_pos hi, h]
    exact congrArg some (if_pos rfl)
  · rw [if_neg hij]
    cases ms[j]? with
    | none => rfl
    | some q => exact congrArg some (if_neg hij)

/-- the table once the kernel is turned into the command line -/
theorem get?_consume (ms : List (Nat × BootModule)) (i : Nat) :
    ((ofModules ms).update 0 fun r => { r with state := .consumed }).get? i = ms[i]?.map fun p =>
      { ModuleRecord.ofModule i p with state := if i = 0 then .consumed else .pending } := by
  unfold update get?
  rw [List.getElem?_modify]
  show _ <$> (ofModules ms).get? i = _
  rw [get?_ofModules]
  cases ms[i]? with
  | none => rfl
  | some p =>
    by_cases hi : i = 0
    · subst hi
      rfl
    · rw [if_neg hi]
      exact congrArg some (if_neg fun h => hi h.symm)

theorem inWay_ofModule (i : Nat) (p : Nat × BootModule) (segments : List Elf.Segment) :
    ((ModuleRecord.ofModule i p).isPending && !(ModuleRecord.ofModule i p).isKernel
        && segments.any fun s => s.loadable && s.range.overlaps (ModuleRecord.ofModule i p).range)
      = true ↔ i ≠ 0 ∧ ∃ s ∈ segments, s.loadable = true ∧ s.range.overlaps p.2.range = true := by
  have hkernel : (ModuleRecord.ofModule i p).isKernel = false ↔ i ≠ 0 := beq_eq_false_iff_ne
  rw [Bool.and_eq_true, Bool.and_eq_true, Bool.not_eq_true', hkernel, List.any_eq_true]
  refine and_congr ⟨fun h => h.2, fun h => ⟨rfl, h⟩⟩ ?_
  refine exists_congr fun s => and_congr_right fun _ => ?_
  rw [Bool.and_eq_true]
  rfl

theorem conflict?_ofModules {ms : List (Nat × BootModule)} {segments : List Elf.Segment} {i : Nat}
    (h : (ofModules ms).conflict? segments = some i) :
    ∃ p, ms[i]? = some p ∧ i ≠ 0
      ∧ ∃ s ∈ segments, s.loadable = true ∧ s.range.overlaps p.2.range = true := by
  obtain ⟨r, hr, hi⟩ := Option.map_eq_some_iff.mp h
  obtain ⟨j, hj⟩ := List.getElem?_of_mem (List.mem_of_find?_eq_some hr)
  have htest := List.find?_some hr
  have hrec : (ofModules ms).get? j = some r := hj
  rw [get?_ofModules, Option.map_eq_some_iff] at hrec
  obtain ⟨p, hp, rfl⟩ := hrec
  obtain rfl : j = i := hi
  exact ⟨p, hp, (inWay_ofModule j p segments).mp htest⟩

theorem conflict?_eq_none_iff (ms : List (Nat × BootModule)) (segments : List Elf.Segment) :
    (ofModules ms).conflict? segments = none ↔ ∀ i p, ms[i]? = some p → i ≠ 0 →
      ∀ s ∈ segments, s.loadable = true → s.range.overlaps p.2.range = false := by
  constructor
  · intro h i p hp hi s hs hload
    have hrec : (ofModules ms).records[i]? = some (.ofModule i p) := by
      rw [← get?, get?_ofModules, hp]
      rfl
    rw [conflict?, Option.map_eq_none_iff, List.find?_eq_none] at h
    have htest := h _ (List.mem_of_getElem? hrec)
    rw [inWay_ofModule] at htest
    exact Bool.eq_false_iff.mpr fun hmeet => htest ⟨hi, s, hs, hload, hmeet⟩
  · intro h
    cases hc : (ofModules ms).conflict? segments with
    | none => rfl
    | some i =>
      obtain ⟨p, hp, hi, s, hs, hload, hmeet⟩ := conflict?_ofModules hc
      rw [h i p hp hi s hs hload] at hmeet
      cases hmeet

end ModuleTable

end ChainBoot
