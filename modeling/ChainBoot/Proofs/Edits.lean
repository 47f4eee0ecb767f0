import Mathlib.Data.List.Nodup
import ChainBoot.Descriptor.Content
import ChainBoot.Descriptor.Edit
import ChainBoot.Proofs.Walk

/-!
# Edits on the walk

Every edit of a tag of the walk succeeds where the tag is of the right kind, and acts on the list
of tags:

* `invalidate_of_mem`, `tags_retype`              the tag gets the type `TagType.invalid`;
* `setModuleRange_of_mem`, `tags_withRange`       the tag gets new bounds, `Tag.withRange`;
* `moduleToCmdline_of_mem`, `tags_split`          the tag is followed by a second one, `Tag.split`.

Any bytes written into a payload change that payload alone (`tags_overwrite_payload`).

What follows for the decoded lists is `modules_withRange`, `modules_split` and, for every decoder
that does not care for modules, `filterMap_replace`.
-/

namespace ChainBoot

/-! ## module tags -/

namespace BootModule

theorem read?_append (first last : UInt32) (rest : Bytes) :
    read? (Bytes.le32 first ++ Bytes.le32 last ++ rest)
      = some ⟨first, last, Bytes.cString rest⟩ := by
  have h0 : Bytes.u32At? (Bytes.le32 first ++ Bytes.le32 last ++ rest) 0 = some first := by
    rw [List.append_assoc]
    have hnil : ([] : Bytes).length = 0 := rfl
    exact Bytes.u32At?_append hnil
  have h4 : Bytes.u32At? (Bytes.le32 first ++ Bytes.le32 last ++ rest) 4 = some last :=
    Bytes.u32At?_append (Bytes.length_le32 first)
  unfold read?
  rw [h0, h4, List.drop_left' (by rw [List.length_append, Bytes.length_le32, Bytes.length_le32])]
  rfl

theorem read?_eq_some_iff (payload : Bytes) (m : BootModule) :
    read? payload = some m ↔ payload = Bytes.le32 m.first ++ Bytes.le32 m.last ++ payload.drop 8
      ∧ m.label = Bytes.cString (payload.drop 8) := by
  constructor
  · intro h
    unfold read? at h
    obtain ⟨first, hfirst, h⟩ := Option.bind_eq_some_iff.mp h
    obtain ⟨last, hlast, h⟩ := Option.bind_eq_some_iff.mp h
    cases h
    refine ⟨?_, rfl⟩
    obtain ⟨-, hw0⟩ := (Bytes.window?_eq_some_iff ..).mp ((Bytes.u32At?_eq_some_iff ..).mp hfirst)
    obtain ⟨-, hw4⟩ := (Bytes.window?_eq_some_iff ..).mp ((Bytes.u32At?_eq_some_iff ..).mp hlast)
    show payload = Bytes.le32 first ++ Bytes.le32 last ++ payload.drop (4 + 4)
    rw [hw0, hw4, List.drop_zero, ← List.take_add, List.take_append_drop]
  · rintro ⟨hp, hl⟩
    rw [hp, read?_append, ← hl]

theorem length_of_read? {payload : Bytes} {m : BootModule} (h : read? payload = some m) :
    8 ≤ payload.length := by
  obtain ⟨hp, -⟩ := (read?_eq_some_iff ..).mp h
  rw [hp, List.length_append, List.length_append, Bytes.length_le32, Bytes.length_le32]
  omega

theorem exists_read? {payload : Bytes} (h : 8 ≤ payload.length) : ∃ m, read? payload = some m := by
  obtain ⟨first, hfirst⟩ := Bytes.exists_u32At? (Nat.le_trans (by decide : 0 + 4 ≤ 8) h)
  obtain ⟨last, hlast⟩ := Bytes.exists_u32At? (Nat.le_trans (by decide : 4 + 4 ≤ 8) h)
  unfold read?
  rw [hfirst, hlast]
  exact ⟨_, rfl⟩

end BootModule

/-- the tag type that a content stands for -/
def Content.type : Content → UInt32
  | .cmdline _ => TagType.cmdline
  | .module _ => TagType.module
  | .memoryMap _ => TagType.memoryMap
  | .framebuffer _ => TagType.framebuffer
  | .acpiOld _ => TagType.acpiOld
  | .acpiNew _ => TagType.acpiNew
  | .invalid => TagType.invalid
  | .other type => type

namespace Tag

variable {t : Tag}

theorem type_of_content {c : Content} (h : t.content = .ok c) : c.type = t.type := by
  unfold content at h
  split at h
  · rename_i htype
    cases h
    exact htype.symm
  · split at h
    · rename_i htype
      split at h
      · cases h
        exact htype.symm
      · cases h
    · split at h
      · rename_i htype
        cases hm : t.memoryMap with
        | ok m =>
          rw [hm] at h
          cases h
          exact htype.symm
        | error e =>
          rw [hm] at h
          cases h
      · split at h
        · rename_i htype
          split at h
          · cases h
            exact htype.symm
          · cases h
        · split at h
          · rename_i htype
            cases h
            exact htype.symm
          · split at h
            · rename_i htype
              cases h
              exact htype.symm
            · split at h
              · rename_i htype
                cases h
                exact htype.symm
              · cases h
                rfl

theorem module?_of_type (h : t.type = TagType.module) :
    t.module? = (BootModule.read? t.payload).map fun m => (t.offset, m) := by
  have hc : t.type ≠ TagType.cmdline := by
    rw [h]
    decide
  unfold module? content
  rw [if_neg hc, if_pos h]
  cases BootModule.read? t.payload <;> rfl

theorem module?_of_type_ne (h : t.type ≠ TagType.module) : t.module? = none := by
  unfold module?
  split
  · rename_i m hm
    exact absurd (type_of_content hm).symm h
  · rfl

theorem module?_eq_some_iff (p : Nat × BootModule) : t.module? = some p ↔
    t.type = TagType.module ∧ p.1 = t.offset ∧ BootModule.read? t.payload = some p.2 := by
  by_cases htype : t.type = TagType.module
  · rw [module?_of_type htype, Option.map_eq_some_iff]
    constructor
    · rintro ⟨m, hm, rfl⟩
      exact ⟨htype, rfl, hm⟩
    · rintro ⟨-, ho, hm⟩
      exact ⟨p.2, hm, by rw [← ho]⟩
  · rw [module?_of_type_ne htype]
    constructor
    · intro h
      cases h
    · intro h
      exact absurd h.1 htype

theorem memoryMap?_of_type_ne (h : t.type ≠ TagType.memoryMap) : t.memoryMap? = none := by
  unfold memoryMap?
  split
  · rename_i m hm
    exact absurd (type_of_content hm).symm h
  · rfl

theorem framebuffer?_of_type_ne (h : t.type ≠ TagType.framebuffer) : t.framebuffer? = none := by
  unfold framebuffer?
  split
  · rename_i m hm
    exact absurd (type_of_content hm).symm h
  · rfl

/-- a module tag with new bounds -/
def withRange (t : Tag) (first last : UInt32) : Tag :=
  { t with payload := Bytes.le32 first ++ Bytes.le32 last ++ t.payload.drop 8 }

/-- the two tags that a module tag is split into -/
def split (t : Tag) : List Tag :=
  [⟨t.offset, TagType.invalid, []⟩, ⟨t.offset + tagHeaderSize, TagType.cmdline, t.payload.drop 8⟩]

theorem size_withRange (hp : 8 ≤ t.payload.length) (first last : UInt32) :
    (t.withRange first last).size = t.size := by
  unfold withRange size
  rw [List.length_append, List.length_append, List.length_drop, Bytes.length_le32, Bytes.length_le32]
  omega

theorem module?_withRange {p : Nat × BootModule} (h : t.module? = some p) (first last : UInt32) :
    (t.withRange first last).module? = some (p.1, { p.2 with first := first, last := last }) := by
  obtain ⟨htype, hp, hread⟩ := (module?_eq_some_iff p).mp h
  obtain ⟨-, hlabel⟩ := (BootModule.read?_eq_some_iff ..).mp hread
  refine (module?_eq_some_iff _).mpr ⟨htype, hp, ?_⟩
  show BootModule.read? (Bytes.le32 first ++ Bytes.le32 last ++ t.payload.drop 8) = _
  rw [BootModule.read?_append, ← hlabel]

theorem filterMap_module?_split (t : Tag) : t.split.filterMap module? = [] := by
  have hinvalid : TagType.invalid ≠ TagType.module := by decide
  have hcmdline : TagType.cmdline ≠ TagType.module := by decide
  unfold split
  rw [List.filterMap_cons_none (module?_of_type_ne hinvalid),
    List.filterMap_cons_none (module?_of_type_ne hcmdline), List.filterMap_nil]

end Tag

namespace Descriptor

variable {d : Descriptor} {t : Tag}

/-! ## when an edit succeeds -/

theorem tagToEdit_of_mem (h : t ∈ d.tags) : d.tagToEdit t.offset = .ok t := by
  unfold tagToEdit
  rw [tagAt?_of_mem h]

theorem moduleToEdit_of_mem {p : Nat × BootModule} (h : t ∈ d.tags) (hm : t.module? = some p) :
    d.moduleToEdit t.offset = .ok t := by
  obtain ⟨htype, -, hread⟩ := (Tag.module?_eq_some_iff p).mp hm
  have hlen := BootModule.length_of_read? hread
  have hsize : ¬ t.size < tagHeaderSize + 8 := by
    unfold Tag.size
    omega
  unfold moduleToEdit
  rw [tagToEdit_of_mem h]
  dsimp only
  rw [if_neg (not_not_intro htype), if_neg hsize]

theorem size_of_tagToEdit {o : Nat} (h : d.tagToEdit o = .ok t) :
    tagHeaderSize ≤ t.size ∧ o + t.size ≤ d.size := by
  unfold tagToEdit tagAt? lookup at h
  split at h
  · rename_i u hu
    cases h
    cases hf : Lookup.front (d.bytes.drop o) o with
    | tag v =>
      rw [hf] at hu
      cases hu
      obtain ⟨hlo, hhi⟩ := Lookup.size_of_front hf
      rw [List.length_drop] at hhi
      rw [tagHeaderSize] at *
      unfold Descriptor.size
      omega
    | _ =>
      rw [hf] at hu
      cases hu
  · cases h

theorem moduleToEdit_inv {o : Nat} (h : d.moduleToEdit o = .ok t) :
    d.tagToEdit o = .ok t ∧ t.type = TagType.module ∧ tagHeaderSize + 8 ≤ t.size := by
  unfold moduleToEdit at h
  split at h
  · cases h
  · rename_i u hu
    split at h
    · cases h
    · rename_i htype
      split at h
      · cases h
      · rename_i hsize
        cases h
        exact ⟨hu, Classical.not_not.mp htype, Nat.not_lt.mp hsize⟩

theorem invalidate_of_mem (h : t ∈ d.tags) :
    d.invalidate t.offset = .ok (d.overwrite t.offset (Bytes.le32 TagType.invalid)) := by
  unfold invalidate
  rw [tagToEdit_of_mem h]
  rfl

theorem setModuleRange_of_mem {p : Nat × BootModule} (h : t ∈ d.tags) (hm : t.module? = some p)
    (first last : UInt32) : d.setModuleRange t.offset first last
      = .ok (d.overwrite (t.offset + tagHeaderSize) (Bytes.le32 first ++ Bytes.le32 last)) := by
  unfold setModuleRange
  rw [moduleToEdit_of_mem h hm]
  rfl

theorem moduleToCmdline_of_mem {p : Nat × BootModule} (h : t ∈ d.tags) (hm : t.module? = some p) :
    d.moduleToCmdline t.offset = .ok (d.overwrite t.offset (splitHeaders t.size)) := by
  unfold moduleToCmdline
  rw [moduleToEdit_of_mem h hm]
  rfl

/-! ## what an edit does to the tags -/

theorem flatMap_replace {pre post : List Tag} (h : d.tags = pre ++ t :: post)
    (ts : List Tag) :
    (d.tags.flatMap fun u => if u.offset = t.offset then ts else [u]) = pre ++ ts ++ post := by
  have hpair := d.pairwise_tags
  rw [h, List.pairwise_append, List.pairwise_cons] at hpair
  obtain ⟨-, ⟨hpost, -⟩, hpre⟩ := hpair
  have hstay : ∀ us : List Tag, (∀ u ∈ us, u.offset ≠ t.offset) →
      (us.flatMap fun u => if u.offset = t.offset then ts else [u]) = us := by
    intro us hus
    rw [List.flatMap_congr (fun u hu => if_neg (hus u hu)), List.flatMap_singleton']
  have hfront : ∀ u ∈ pre, u.offset ≠ t.offset := by
    intro u hu
    have := hpre u hu t (List.mem_cons_self ..)
    unfold Tag.stop Tag.size at this
    rw [tagHeaderSize] at this
    omega
  have hback : ∀ u ∈ post, u.offset ≠ t.offset := by
    intro u hu
    have := hpost u hu
    unfold Tag.stop Tag.size at this
    rw [tagHeaderSize] at this
    omega
  rw [h, List.flatMap_append, List.flatMap_cons, hstay pre hfront, hstay post hback,
    if_pos rfl, List.append_assoc]

theorem map_replace_eq_flatMap (as : List Tag) (o : Nat) (t' : Tag) :
    (as.map fun u => if u.offset = o then t' else u)
      = as.flatMap fun u => if u.offset = o then [t'] else [u] := by
  rw [List.map_eq_flatMap]
  refine List.flatMap_congr fun u _ => ?_
  split <;> rfl

theorem map_replace {pre post : List Tag} (h : d.tags = pre ++ t :: post) (t' : Tag) :
    (d.tags.map fun u => if u.offset = t.offset then t' else u) = pre ++ t' :: post := by
  rw [map_replace_eq_flatMap, flatMap_replace h, List.append_assoc, List.singleton_append]

/-- bytes written into the payload of a tag change that payload and no other tag -/
theorem tags_overwrite_payload (h : t ∈ d.tags) {k : Nat} {new : Bytes}
    (hroom : k + new.length ≤ t.payload.length) :
    tags (d.overwrite (t.offset + tagHeaderSize + k) new) = d.tags.map fun u =>
      if u.offset = t.offset then { t with payload := t.payload.overwrite k new } else u := by
  let t' : Tag := { t with payload := t.payload.overwrite k new }
  have hoff : t'.offset = t.offset := rfl
  have hsize : t'.size = t.size := congrArg (tagHeaderSize + ·) (Bytes.length_overwrite hroom)
  obtain ⟨pre, tail, hbytes, hpre, htags⟩ := tags_replace h hoff hsize (encodable_of_mem_tags h).1
  have hfront : (pre ++ (Bytes.le32 t.type ++ Bytes.le32 (UInt32.ofNat t.size))).length
      = t.offset + tagHeaderSize := by
    rw [List.length_append, List.length_append, Bytes.length_le32, Bytes.length_le32, hpre]
    rfl
  have hnew : d.overwrite (t.offset + tagHeaderSize + k) new = ⟨pre ++ t'.encode ++ tail⟩ := by
    have hpieces : d.bytes
        = pre ++ (Bytes.le32 t.type ++ Bytes.le32 (UInt32.ofNat t.size)) ++ (t.payload ++ tail) := by
      rw [hbytes, Tag.encode]
      simp only [List.append_assoc]
    unfold overwrite
    rw [hpieces, Bytes.overwrite_append_right hfront, Bytes.overwrite_append_left hroom, Tag.encode, hsize]
    simp only [t', List.append_assoc]
  rw [hnew, htags]

theorem tags_withRange (h : t ∈ d.tags) (hp : 8 ≤ t.payload.length) (first last : UInt32) :
    tags (d.overwrite (t.offset + tagHeaderSize) (Bytes.le32 first ++ Bytes.le32 last))
      = d.tags.map fun u => if u.offset = t.offset then t.withRange first last else u := by
  have hlen : (Bytes.le32 first ++ Bytes.le32 last).length = 8 := by
    rw [List.length_append, Bytes.length_le32, Bytes.length_le32]
  have hroom : 0 + (Bytes.le32 first ++ Bytes.le32 last).length ≤ t.payload.length := by
    rw [hlen]
    omega
  have hpayload : t.payload.overwrite 0 (Bytes.le32 first ++ Bytes.le32 last)
      = Bytes.le32 first ++ Bytes.le32 last ++ t.payload.drop 8 := by
    unfold Bytes.overwrite
    rw [hlen, List.take_zero, List.nil_append]
  have htags := tags_overwrite_payload h hroom
  rw [hpayload] at htags
  exact htags

/-- the walk over the headers of a split, before it goes on behind the tag -/
theorem tagsFrom_split (h : t ∈ d.tags) (hp : 8 ≤ t.payload.length) (tail : Bytes) :
    tagsFrom (splitHeaders t.size ++ t.payload.drop 8 ++ tail) t.offset
      = t.split ++ tagsFrom (tail.drop (align8 t.size - t.size)) (t.offset + align8 t.size) := by
  have hlt := (encodable_of_mem_tags h).2
  have hsizes : t.size = 8 + t.payload.length := rfl
  let t₁ : Tag := ⟨t.offset, TagType.invalid, []⟩
  let t₂ : Tag := ⟨t.offset + tagHeaderSize, TagType.cmdline, t.payload.drop 8⟩
  have h₁ : t₁.size = 8 := rfl
  have h₂ : t₂.size = t.payload.length := by
    show tagHeaderSize + (t.payload.drop 8).length = _
    rw [List.length_drop, tagHeaderSize]
    omega
  have hbytes : splitHeaders t.size ++ t.payload.drop 8 ++ tail = t₁.encode ++ (t₂.encode ++ tail) := by
    have hn : t.size - tagHeaderSize = t₂.size := by
      rw [h₂, hsizes, tagHeaderSize]
      omega
    unfold splitHeaders Tag.encode
    rw [hn]
    simp only [t₁, t₂, List.append_assoc]
    rfl
  have halign : align8 t.size = 8 + align8 t.payload.length := by
    rw [hsizes, align8_add_eight]
  have hle := le_align8 t.payload.length
  have hinvalid : t₁.type ≠ TagType.stop := show TagType.invalid ≠ TagType.stop by decide
  have hcmdline : t₂.type ≠ TagType.stop := show TagType.cmdline ≠ TagType.stop by decide
  have hwalk₁ := tagsFrom_encode hinvalid (by rw [h₁]; decide) (t₂.encode ++ tail)
  have hwalk₂ := tagsFrom_encode hcmdline (by rw [h₂]; omega) tail
  rw [h₁] at hwalk₁
  rw [h₂] at hwalk₂
  have hstart : t₁.offset + align8 8 = t₂.offset := rfl
  have hdrop : align8 t.size - t.size = align8 t.payload.length - t.payload.length := by omega
  have hend : t₂.offset + align8 t.payload.length = t.offset + align8 t.size := by
    show t.offset + 8 + _ = _
    omega
  rw [hstart] at hwalk₁
  rw [hbytes, hdrop, ← hend]
  show tagsFrom (t₁.encode ++ (t₂.encode ++ tail)) t₁.offset = t₁ :: t₂ :: _
  rw [hwalk₁]
  show t₁ :: tagsFrom (t₂.encode ++ tail) t₂.offset = _
  rw [hwalk₂]
  rfl

theorem tags_split (h : t ∈ d.tags) (hp : 8 ≤ t.payload.length) :
    tags (d.overwrite t.offset (splitHeaders t.size))
      = d.tags.flatMap fun u => if u.offset = t.offset then t.split else [u] := by
  obtain ⟨pre, tail, hbytes, hpre, hsplice⟩ := tags_splice h
  have hsizes : t.size = 8 + t.payload.length := rfl
  have hheads : (splitHeaders t.size).length = 16 := by
    unfold splitHeaders
    simp only [List.length_append, Bytes.length_le32]
  have hnew : d.overwrite t.offset (splitHeaders t.size)
      = ⟨pre ++ (splitHeaders t.size ++ t.payload.drop 8) ++ tail⟩ := by
    have hold : (Bytes.le32 t.type ++ Bytes.le32 (UInt32.ofNat t.size) ++ t.payload.take 8).length
        = (splitHeaders t.size).length := by
      rw [hheads, List.length_append, List.length_append, List.length_take, Bytes.length_le32,
        Bytes.length_le32]
      omega
    have hpieces : d.bytes = pre
        ++ (Bytes.le32 t.type ++ Bytes.le32 (UInt32.ofNat t.size) ++ t.payload.take 8)
        ++ (t.payload.drop 8 ++ tail) := by
      rw [hbytes, Tag.encode]
      simp only [List.append_assoc]
      rw [← List.append_assoc (List.take 8 t.payload), List.take_append_drop]
    unfold overwrite
    rw [hpieces, Bytes.overwrite_append hpre hold]
    simp only [List.append_assoc]
  have hlen : (splitHeaders t.size ++ t.payload.drop 8).length = t.size := by
    rw [List.length_append, hheads, List.length_drop]
    omega
  rw [hnew, hsplice _ _ hlen (tagsFrom_split h hp tail)]

/-! ## what an edit does to the decoded lists -/

theorem mem_modules_iff (p : Nat × BootModule) :
    p ∈ d.modules ↔ ∃ t ∈ d.tags, t.module? = some p := List.mem_filterMap

/-- a decoder that reads from the new tag what it reads from the old one sees no edit -/
theorem filterMap_replace {β : Type} {g : Tag → Option β} (h : t ∈ d.tags) {ts : List Tag}
    (hg : ts.filterMap g = [t].filterMap g) :
    (d.tags.flatMap fun u => if u.offset = t.offset then ts else [u]).filterMap g
      = d.tags.filterMap g := by
  rw [List.filterMap_flatMap]
  have hone : ∀ u ∈ d.tags, (if u.offset = t.offset then ts else [u]).filterMap g
      = [u].filterMap g := by
    intro u hu
    by_cases ho : u.offset = t.offset
    · rw [if_pos ho, hg, offset_inj hu h ho]
    · rw [if_neg ho]
  rw [List.flatMap_congr hone, ← List.filterMap_flatMap, List.flatMap_singleton']

section
variable {p : Nat × BootModule} (h : t ∈ d.tags) (hm : t.module? = some p) (first last : UInt32)
include h hm

theorem modules_withRange :
    ((d.tags.map fun u => if u.offset = t.offset then t.withRange first last else u).filterMap
        Tag.module?)
      = d.modules.map fun q =>
          if q.1 = t.offset then (q.1, { q.2 with first := first, last := last }) else q := by
  unfold modules
  rw [List.filterMap_map, List.map_filterMap]
  refine List.filterMap_congr fun u hu => ?_
  by_cases ho : u.offset = t.offset
  · obtain rfl := offset_inj hu h ho
    obtain ⟨-, hp, -⟩ := (Tag.module?_eq_some_iff p).mp hm
    show (if u.offset = u.offset then u.withRange first last else u).module? = _
    rw [if_pos rfl, hm, Option.map_some, if_pos hp, Tag.module?_withRange hm]
  · show (if u.offset = t.offset then t.withRange first last else u).module? = _
    rw [if_neg ho]
    cases hu' : u.module? with
    | none => rfl
    | some q =>
      obtain ⟨-, hq, -⟩ := (Tag.module?_eq_some_iff q).mp hu'
      rw [Option.map_some, if_neg (by rw [hq]; exact ho)]

theorem modules_split :
    ((d.tags.flatMap fun u => if u.offset = t.offset then t.split else [u]).filterMap Tag.module?)
      = d.modules.filter fun q => q.1 ≠ t.offset := by
  unfold modules
  rw [List.filterMap_flatMap, List.filter_filterMap, List.filterMap_eq_flatMap_toList]
  refine List.flatMap_congr fun u hu => ?_
  by_cases ho : u.offset = t.offset
  · obtain rfl := offset_inj hu h ho
    obtain ⟨-, hp, -⟩ := (Tag.module?_eq_some_iff p).mp hm
    rw [if_pos rfl, hm, Tag.filterMap_module?_split]
    simp [hp]
  · rw [if_neg ho]
    cases hu' : u.module? with
    | none => simp [hu']
    | some q =>
      obtain ⟨-, hq, -⟩ := (Tag.module?_eq_some_iff q).mp hu'
      simp [hu', Option.filter, hq, ho]

end

/-! ## the frame of an edit -/

theorem parse_eq_ok_iff (bs : Bytes) (d : Descriptor) : parse bs = .ok d ↔
    ∃ total, peekTotal? bs = some total ∧ headerSize ≤ total.toNat ∧ total.toNat ≤ bs.length
      ∧ d = ⟨bs.take total.toNat⟩ := by
  unfold parse
  cases ht : peekTotal? bs with
  | none =>
    constructor
    · intro h
      cases h
    · rintro ⟨total, h, -⟩
      cases h
  | some total =>
    dsimp only
    constructor
    · intro h
      split at h
      · cases h
      · rename_i hbounds
        cases h
        exact ⟨total, rfl, by omega, by omega, rfl⟩
    · rintro ⟨total', h, hlo, hhi, rfl⟩
      cases h
      rw [if_neg (by omega)]

theorem parse_inv {bs : Bytes} (h : parse bs = .ok d) :
    (∃ total, peekTotal? bs = some total ∧ total.toNat = d.size) ∧ headerSize ≤ d.size
      ∧ d.size ≤ bs.length ∧ d = ⟨bs.take d.size⟩ := by
  obtain ⟨total, ht, hlo, hhi, hd⟩ := (parse_eq_ok_iff ..).mp h
  have hsize : d.size = total.toNat := by
    rw [hd]
    show (bs.take total.toNat).length = _
    rw [List.length_take, Nat.min_eq_left hhi]
  rw [hsize]
  exact ⟨⟨total, ht, rfl⟩, hlo, hhi, hd⟩

/-- a descriptor parses to itself where its first word is its length -/
theorem parse_self_iff (d : Descriptor) : parse d.bytes = .ok d ↔
    headerSize ≤ d.size ∧ ∃ total, peekTotal? d.bytes = some total ∧ total.toNat = d.size := by
  rw [parse_eq_ok_iff]
  constructor
  · rintro ⟨total, ht, hlo, hhi, hd⟩
    have hlen := congrArg Descriptor.size hd
    unfold Descriptor.size at hlen ⊢
    rw [List.length_take] at hlen
    exact ⟨by omega, total, ht, by omega⟩
  · rintro ⟨hlo, total, ht, hlen⟩
    refine ⟨total, ht, by omega, Nat.le_of_eq hlen, ?_⟩
    rw [hlen]
    unfold Descriptor.size
    rw [List.take_length]

theorem size_overwrite {off : Nat} {new : Bytes} (h : off + new.length ≤ d.size) :
    (d.overwrite off new).size = d.size := Bytes.length_overwrite h

theorem parse_overwrite {off : Nat} {new : Bytes} (hd : parse d.bytes = .ok d)
    (hlo : headerSize ≤ off) (hhi : off + new.length ≤ d.size) :
    parse (d.overwrite off new).bytes = .ok (d.overwrite off new) := by
  obtain ⟨hsize, total, htotal, hlen⟩ := (parse_self_iff d).mp hd
  refine (parse_self_iff _).mpr ⟨by rw [size_overwrite hhi]; exact hsize, total, ?_, ?_⟩
  · rw [← htotal]
    unfold peekTotal? Bytes.u32At?
    rw [headerSize] at hlo
    congr 1
    refine Bytes.window?_congr fun i _ hi => ?_
    show (d.bytes.overwrite off new)[i]? = d.bytes[i]?
    rw [Bytes.getElem?_overwrite hhi, if_neg (by omega)]
  · rw [size_overwrite hhi, hlen]

end Descriptor

end ChainBoot
