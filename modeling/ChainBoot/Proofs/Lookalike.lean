import ChainBoot.Proofs.InPlace

/-!
# What looks like a tag

An edit looks at the two words at its offset, and not at the walk.  Two words of a payload, of the
padding, of the bytes behind the walk or of the header itself may read as the type and the size of a
tag that fits, and then an edit is done there as it is on a tag.

* `Edit.Accepts`        what an edit asks of the tag at its offset;
* `inPlace_ok_iff`      an edit is done exactly where such a tag stands, of the walk or not;
* `refusedAt_iff`       no edit is done at the offsets where no tag stands, and at no others;
* `edits_refused_iff`   for which descriptors these are all the offsets away from the walk;
* `payload_edited`      one for which they are not.
-/

namespace ChainBoot

/-- a module tag that holds both of its bounds -/
def Tag.Bounded (t : Tag) : Prop := t.type = TagType.module ∧ tagHeaderSize + 8 ≤ t.size

/-- the edit may be done to the tag -/
def Edit.Accepts : Edit → Tag → Prop
  | invalidate, _ => True
  | setRange _ _, t => t.Bounded
  | toCmdline, t => t.Bounded

namespace Descriptor

variable {bs : Bytes} {d : Descriptor} {t : Tag} {o : Nat}

/-- every edit at the offset is refused, and leaves the buffer as it is -/
def RefusedAt (bs : Bytes) (o : Nat) : Prop :=
  ∀ e : Edit, ∃ err, e.inPlace bs o = (bs, .error err)

/-! ## what an edit finds -/

theorem tagAt?_eq_some_iff (h : parse bs = .ok d) :
    d.tagAt? o = some t ↔ t.offset = o ∧ t.Stands bs d.size := by
  obtain ⟨-, -, hhi, hd⟩ := parse_inv h
  have hbytes : d.bytes = bs.take d.size := congrArg Descriptor.bytes hd
  rw [← Lookup.front_eq_tag_iff_stands hhi, ← hbytes]
  unfold tagAt? lookup
  cases Lookup.front (d.bytes.drop o) o with
  | tag u =>
    constructor
    · intro hu
      rw [Option.some.inj hu]
    · intro hu
      rw [Lookup.tag.inj hu]
      rfl
  | _ =>
    constructor
    · intro hu
      cases hu
    · intro hu
      cases hu

theorem tagToEdit_eq_ok_iff : d.tagToEdit o = .ok t ↔ d.tagAt? o = some t := by
  unfold tagToEdit
  cases d.tagAt? o with
  | none =>
    constructor
    · intro h
      cases h
    · intro h
      cases h
  | some u =>
    constructor
    · intro h
      rw [Except.ok.inj h]
    · intro h
      rw [Option.some.inj h]

theorem moduleToEdit_eq_ok_iff : d.moduleToEdit o = .ok t ↔ d.tagToEdit o = .ok t ∧ t.Bounded := by
  constructor
  · exact moduleToEdit_inv
  · rintro ⟨htag, htype, hsize⟩
    unfold moduleToEdit
    rw [htag]
    dsimp only
    rw [if_neg (not_not_intro htype), if_neg (Nat.not_lt.mpr hsize)]

end Descriptor

namespace Edit

open Descriptor

variable {bs : Bytes} {d : Descriptor} {t : Tag} {o : Nat} (e : Edit)

theorem target_eq_ok_iff : e.target d o = .ok t ↔ d.tagAt? o = some t ∧ e.Accepts t := by
  cases e with
  | invalidate => exact tagToEdit_eq_ok_iff.trans (and_iff_left trivial).symm
  | setRange first last => exact moduleToEdit_eq_ok_iff.trans (and_congr_left' tagToEdit_eq_ok_iff)
  | toCmdline => exact moduleToEdit_eq_ok_iff.trans (and_congr_left' tagToEdit_eq_ok_iff)

/-- **An edit is done exactly where a tag stands that it accepts.** -/
theorem inPlace_ok_iff (h : parse bs = .ok d) : (e.inPlace bs o).2 = .ok ()
    ↔ ∃ t : Tag, t.offset = o ∧ t.Stands bs d.size ∧ e.Accepts t := by
  rw [inPlace_eq, e.editPrefix_iff h]
  refine exists_congr fun t => ?_
  rw [target_eq_ok_iff, tagAt?_eq_some_iff h, and_assoc]

theorem refused_iff (h : parse bs = .ok d) : (∃ err, e.inPlace bs o = (bs, .error err))
    ↔ ∀ t : Tag, t.offset = o → t.Stands bs d.size → ¬ e.Accepts t := by
  have hdone := e.inPlace_ok_iff (o := o) h
  constructor
  · rintro ⟨err, herr⟩ t ho ht hacc
    have hok := hdone.mpr ⟨t, ho, ht, hacc⟩
    rw [herr] at hok
    cases hok
  · intro hnone
    cases hout : (e.inPlace bs o).2 with
    | ok u =>
      obtain ⟨t, ho, ht, hacc⟩ := hdone.mp hout
      exact absurd hacc (hnone t ho ht)
    | error err => exact ⟨err, Prod.ext ((e.framed h o).refused err hout) hout⟩

end Edit

namespace Descriptor

variable {bs : Bytes} {d : Descriptor} {o : Nat}

theorem refusedAt_iff (h : parse bs = .ok d) : RefusedAt bs o ↔ Ends bs d.size o := by
  obtain ⟨-, -, hhi, -⟩ := parse_inv h
  rw [ends_iff hhi]
  constructor
  · intro hrefused t ho ht
    exact (Edit.invalidate.refused_iff h).mp (hrefused .invalidate) t ho ht trivial
  · intro hnone e
    exact (e.refused_iff h).mpr fun t ho ht => absurd ht (hnone t ho)

theorem refusedAt_stopOffset (h : parse bs = .ok d) : RefusedAt bs d.stopOffset := by
  obtain ⟨-, hchained, -⟩ := parse_chained h
  have hends := hchained.ends
  rw [refusedAt_iff h]
  unfold stopOffset
  cases hlast : d.tags.getLast? with
  | none =>
    rw [hlast] at hends
    exact hends
  | some t =>
    rw [hlast] at hends
    exact hends

/-- the first word of a descriptor is its size, which is no type of a module -/
theorem not_bounded_of_offset_zero (h : parse bs = .ok d) {t : Tag} (ho : t.offset = 0)
    (ht : t.Stands bs d.size) : ¬ t.Bounded := by
  rintro ⟨htype, -⟩
  obtain ⟨⟨total, htotal, hsize⟩, hlo, -⟩ := parse_inv h
  have hword := ht.type
  rw [ho] at hword
  obtain rfl : total = t.type := Option.some.inj (htotal.symm.trans hword)
  rw [htype] at hsize
  rw [← hsize] at hlo
  revert hlo
  decide

/-- **Edits away from the walk are refused at an offset exactly if no tag stands there, and at all
such offsets exactly if the walk has every tag that stands anywhere.**  Where the walk ends none is
done, and none of a module on the descriptor's own header. -/
theorem edits_refused_iff (h : parse bs = .ok d) :
    (∀ (e : Edit) (o : Nat), (∃ err, e.inPlace bs o = (bs, .error err))
      ↔ ∀ t : Tag, t.offset = o → t.Stands bs d.size → ¬ e.Accepts t)
    ∧ (∀ o, RefusedAt bs o ↔ Ends bs d.size o)
    ∧ ((∀ o, o ∉ d.tags.map Tag.offset → RefusedAt bs o)
      ↔ ∀ t : Tag, t.Stands bs d.size → t ∈ d.tags)
    ∧ RefusedAt bs d.stopOffset
    ∧ ∀ e : Edit, e ≠ .invalidate → ∃ err, e.inPlace bs 0 = (bs, .error err) := by
  refine ⟨fun e o => e.refused_iff h, fun o => refusedAt_iff h,
    ⟨fun hall t ht => ?_, fun hall o ho => ?_⟩, refusedAt_stopOffset h,
    fun e he => (e.refused_iff h).mpr fun t ho ht => ?_⟩
  · have hmem : t.offset ∈ d.tags.map Tag.offset := by
      by_contra hout
      exact (Edit.invalidate.refused_iff h).mp (hall t.offset hout .invalidate) t rfl ht trivial
    obtain ⟨u, hu, hoff⟩ := List.mem_map.mp hmem
    -- the walk has a tag at the same offset, and only one tag can stand there
    have hfound := (tagAt?_eq_some_iff h).mpr ⟨hoff.symm, ht⟩
    rw [tagAt?_of_mem hu] at hfound
    rw [← Option.some.inj hfound]
    exact hu
  · exact fun e => (e.refused_iff h).mpr fun t hto ht =>
      absurd (List.mem_map.mpr ⟨t, hall t ht, hto⟩) ho
  · cases e with
    | invalidate => exact absurd rfl he
    | setRange first last => exact not_bounded_of_offset_zero h ho ht
    | toCmdline => exact not_bounded_of_offset_zero h ho ht

/-- one tag, and the words of its payload would make a module tag -/
def lookalike : Bytes := List.flatMap Bytes.le32 [40, 0, 7, 24, 3, 16, 0x1000, 0x1FFF, 0, 8]

theorem tags_lookalike : tags ⟨lookalike⟩
    = [⟨8, 7, List.flatMap Bytes.le32 [3, 16, 0x1000, 0x1FFF]⟩] := by
  decide +kernel

theorem stands_lookalike :
    Tag.Stands lookalike 40 ⟨16, TagType.module, List.flatMap Bytes.le32 [0x1000, 0x1FFF]⟩ := by
  have h : parse lookalike = .ok ⟨lookalike⟩ := rfl
  exact ((tagAt?_eq_some_iff (o := 16) h).mp (by decide +kernel)).2

/-- the last two words of the payload read as a tag that is too long, so no edit is done there, nor
where the walk ends; but the first two spoil it -/
theorem lookalike_refused : parse lookalike = .ok ⟨lookalike⟩
    ∧ RefusedAt lookalike 24 ∧ RefusedAt lookalike 32
    ∧ ¬ ∀ o, o ∉ (tags ⟨lookalike⟩).map Tag.offset → RefusedAt lookalike o := by
  have h : parse lookalike = .ok ⟨lookalike⟩ := rfl
  obtain ⟨-, hends, hall, hstop, -⟩ := edits_refused_iff h
  have hend : stopOffset ⟨lookalike⟩ = 32 := by decide +kernel
  have hover : Ends lookalike 40 24 :=
    .inr ⟨0x1000, 0x1FFF, by decide +kernel, by decide +kernel, .inr (.inr (by decide))⟩
  rw [hend] at hstop
  refine ⟨h, (hends 24).mpr hover, hstop, fun hno => ?_⟩
  have hmem := hall.mp hno _ stands_lookalike
  rw [tags_lookalike] at hmem
  exact absurd (List.mem_singleton.mp hmem) (by decide +kernel)

/-- the walk has the tag at offset 8 only, and all edits are done at offset 16 -/
theorem payload_edited : parse lookalike = .ok ⟨lookalike⟩
    ∧ (tags ⟨lookalike⟩).map Tag.offset = [8]
    ∧ (∀ e : Edit, (e.inPlace lookalike 16).2 = .ok ())
    ∧ (Edit.invalidate.inPlace lookalike 16).1 ≠ lookalike := by
  have h : parse lookalike = .ok ⟨lookalike⟩ := rfl
  refine ⟨h, by rw [tags_lookalike]; rfl, fun e => ?_, by decide +kernel⟩
  refine (e.inPlace_ok_iff h).mpr ⟨_, rfl, stands_lookalike, ?_⟩
  cases e with
  | invalidate => trivial
  | setRange first last => exact ⟨rfl, by decide⟩
  | toCmdline => exact ⟨rfl, by decide⟩

end Descriptor

end ChainBoot
