import Mathlib.Data.List.Basic
import ChainBoot.Descriptor.Walk
import ChainBoot.Proofs.Bytes

/-!
# The bytes of a walk

A tag stands in the bytes of its descriptor as `Tag.encode`: type, size, payload.  A walk finds a
tag exactly where these bytes stand (`front_encode`, `encode_of_front`), so the bytes of one tag
can be exchanged for as many others without any effect on the tags before and behind it:

* `tagsFrom_splice`, `tags_splice`   the walk over the new bytes has the new tags in the place of
                                     the old one;
* `tags_replace`                     the same for one new tag of the old size;
* `offset_inj`                       a tag is known by its offset.
-/

namespace ChainBoot

/-- header and payload, the padding left out -/
def Tag.encode (t : Tag) : Bytes := Bytes.le32 t.type ++ Bytes.le32 (UInt32.ofNat t.size) ++ t.payload

theorem Tag.length_encode (t : Tag) : t.encode.length = t.size := by
  unfold Tag.encode Tag.size tagHeaderSize
  rw [List.length_append, List.length_append, Bytes.length_le32, Bytes.length_le32]

theorem align8_add_eight (n : Nat) : align8 (8 + n) = 8 + align8 n := by
  unfold align8
  omega

/-! ## one tag -/

namespace Lookup

theorem front_encode {t : Tag} (htype : t.type ≠ TagType.stop) (hsize : t.size < 0x100000000)
    (tail : Bytes) : front (t.encode ++ tail) t.offset = .tag t := by
  have hlen : (t.encode ++ tail).length = t.size + tail.length := by
    rw [List.length_append, Tag.length_encode]
  have hnum : (UInt32.ofNat t.size).toNat = t.size := by
    rw [UInt32.toNat_ofNat']
    omega
  refine (front_eq_tag_iff ..).mpr ⟨UInt32.ofNat t.size, ?_, ?_, htype, ?_, ?_, rfl, ?_⟩
  · unfold Tag.encode
    rw [List.append_assoc, List.append_assoc]
    have hnil : ([] : Bytes).length = 0 := rfl
    exact Bytes.u32At?_append hnil
  · unfold Tag.encode
    rw [List.append_assoc]
    exact Bytes.u32At?_append (Bytes.length_le32 _)
  · rw [hnum]
    exact Nat.le_add_right ..
  · rw [hnum, hlen]
    omega
  · rw [hnum, List.take_left' t.length_encode]
    unfold Tag.encode
    rw [List.drop_left' (by rw [List.length_append, Bytes.length_le32, Bytes.length_le32]; rfl)]

theorem encode_of_front {rest : Bytes} {offset : Nat} {t : Tag} (h : front rest offset = .tag t) :
    t.type ≠ TagType.stop ∧ t.size < 0x100000000 ∧ rest = t.encode ++ rest.drop t.size := by
  obtain ⟨size, h0, h4, hs, hz, hle, -, hp⟩ := (front_eq_tag_iff ..).mp h
  have hsize : t.size = size.toNat := size_eq hz hle hp
  have hnum : UInt32.ofNat t.size = size := by rw [hsize, UInt32.ofNat_toNat]
  have htype := Bytes.eq_append_of_window? ((Bytes.u32At?_eq_some_iff ..).mp h0)
  obtain ⟨-, hdecl⟩ := (Bytes.window?_eq_some_iff ..).mp ((Bytes.u32At?_eq_some_iff ..).mp h4)
  obtain ⟨-, hword⟩ := (Bytes.window?_eq_some_iff ..).mp ((Bytes.u32At?_eq_some_iff ..).mp h0)
  have hhead : rest.take tagHeaderSize = Bytes.le32 t.type ++ Bytes.le32 size := by
    rw [hdecl, hword, List.drop_zero, ← List.take_add]
    rfl
  refine ⟨hs, by rw [hsize]; exact size.toNat_lt, ?_⟩
  have hencode : t.encode = rest.take t.size := by
    unfold Tag.encode
    rw [hnum, ← hhead, hp, ← hsize]
    rw [← List.take_append_drop tagHeaderSize (rest.take t.size), List.take_take,
      Nat.min_eq_left (by rw [hsize]; exact hz)]
    rw [List.drop_left' (by rw [List.length_take]; omega)]
  rw [hencode, List.take_append_drop]

end Lookup

theorem tagsFrom_encode {t : Tag} (htype : t.type ≠ TagType.stop) (hsize : t.size < 0x100000000)
    (tail : Bytes) : tagsFrom (t.encode ++ tail) t.offset
      = t :: tagsFrom (tail.drop (align8 t.size - t.size)) (t.offset + align8 t.size) := by
  have hle := le_align8 t.size
  have hdrop : (t.encode ++ tail).drop (align8 t.size) = tail.drop (align8 t.size - t.size) := by
    rw [List.drop_append, t.length_encode, List.drop_of_length_le (by rw [t.length_encode]; exact hle),
      List.nil_append]
  rw [tagsFrom_of_tag (Lookup.front_encode htype hsize tail), hdrop]

/-! ## the tags of a walk -/

theorem encodable_of_mem_tagsFrom (rest : Bytes) (offset : Nat) :
    ∀ t ∈ tagsFrom rest offset, t.type ≠ TagType.stop ∧ t.size < 0x100000000 := by
  induction rest, offset using tagsFrom_induction with
  | stop rest offset h => rw [tagsFrom_of_none h]; intro t ht; cases ht
  | step rest offset u h ih =>
    rw [tagsFrom_of_tag h]
    obtain ⟨htype, hsize, -⟩ := Lookup.encode_of_front h
    intro t ht
    rcases List.mem_cons.mp ht with rfl | ht
    · exact ⟨htype, hsize⟩
    · exact ih t ht

theorem dvd_offset_of_mem_tagsFrom (rest : Bytes) (offset : Nat) :
    8 ∣ offset → ∀ t ∈ tagsFrom rest offset, 8 ∣ t.offset := by
  induction rest, offset using tagsFrom_induction with
  | stop rest offset h => rw [tagsFrom_of_none h]; intro _ t ht; cases ht
  | step rest offset u h ih =>
    rw [tagsFrom_of_tag h]
    intro hdvd t ht
    rcases List.mem_cons.mp ht with rfl | ht
    · rw [Lookup.offset_of_front h]
      exact hdvd
    · exact ih (Nat.dvd_add hdvd (dvd_align8 _)) t ht

theorem pairwise_tagsFrom (rest : Bytes) (offset : Nat) :
    (tagsFrom rest offset).Pairwise fun t u => t.stop ≤ u.offset := by
  induction rest, offset using tagsFrom_induction with
  | stop rest offset h => rw [tagsFrom_of_none h]; exact List.Pairwise.nil
  | step rest offset u h ih =>
    rw [tagsFrom_of_tag h]
    refine List.pairwise_cons.mpr ⟨fun t ht => ?_, ih⟩
    obtain ⟨hlo, -, -⟩ := bounds_of_mem_tagsFrom _ _ t ht
    have ho := Lookup.offset_of_front h
    have ha := le_align8 u.size
    unfold Tag.stop
    omega

/-- **The bytes of one tag are exchanged for as many others.**  If a walk over the new bytes gives
`ts` and then goes on behind the tag, the whole walk has `ts` in its place. -/
theorem tagsFrom_splice (rest : Bytes) (offset : Nat) : ∀ t ∈ tagsFrom rest offset,
    ∃ pre tail, rest = pre ++ t.encode ++ tail ∧ offset + pre.length = t.offset ∧
      ∀ new ts, new.length = t.size →
        tagsFrom (new ++ tail) t.offset
          = ts ++ tagsFrom (tail.drop (align8 t.size - t.size)) (t.offset + align8 t.size) →
        tagsFrom (pre ++ new ++ tail) offset
          = (tagsFrom rest offset).flatMap fun u => if u.offset = t.offset then ts else [u] := by
  induction rest, offset using tagsFrom_induction with
  | stop rest offset h => rw [tagsFrom_of_none h]; intro t ht; cases ht
  | step rest offset u h ih =>
    obtain ⟨htype, hsize, hrest⟩ := Lookup.encode_of_front h
    have hu := Lookup.size_of_front h
    have ho := Lookup.offset_of_front h
    have ha := le_align8 u.size
    rw [tagHeaderSize] at hu
    rw [tagsFrom_of_tag h]
    intro t ht
    rcases List.mem_cons.mp ht with rfl | ht
    · -- the walk starts with the tag: all later ones have other offsets
      refine ⟨[], rest.drop t.size, hrest, ho.symm, fun new ts _ hts => ?_⟩
      have hlater : ∀ v ∈ tagsFrom (rest.drop (align8 t.size)) (offset + align8 t.size),
          (if v.offset = t.offset then ts else [v]) = [v] := by
        intro v hv
        obtain ⟨hlo, -, -⟩ := bounds_of_mem_tagsFrom _ _ v hv
        rw [if_neg (by omega)]
      rw [List.drop_drop, Nat.add_sub_cancel' ha, ho] at hts
      rw [List.nil_append, hts, List.flatMap_cons, if_pos rfl, List.flatMap_congr hlater,
        List.flatMap_singleton']
    · obtain ⟨pre, tail, hdrop, hpre, hsplice⟩ := ih t ht
      obtain ⟨hlo, htsize, -⟩ := bounds_of_mem_tagsFrom _ _ t ht
      have hlen : align8 u.size ≤ rest.length := by
        have hl := congrArg List.length hdrop
        rw [List.length_drop, List.length_append, List.length_append, t.length_encode] at hl
        rw [tagHeaderSize] at htsize
        omega
      have htake : (rest.take (align8 u.size)).length = align8 u.size := by
        rw [List.length_take]
        omega
      refine ⟨rest.take (align8 u.size) ++ pre, tail, ?_, ?_, fun new ts hnew hts => ?_⟩
      · rw [List.append_assoc, List.append_assoc, ← List.append_assoc pre, ← hdrop,
          List.take_append_drop]
      · rw [List.length_append, htake]
        omega
      · have hall : rest.take (align8 u.size) ++ pre ++ new ++ tail
            = rest.take (align8 u.size) ++ (pre ++ new ++ tail) := by
          rw [List.append_assoc, List.append_assoc, List.append_assoc]
        have hfront : Lookup.front (rest.take (align8 u.size) ++ (pre ++ new ++ tail)) offset
            = .tag u := by
          refine Lookup.front_congr h ?_ fun i hi => ?_
          · rw [List.length_append, htake]
            omega
          · rw [List.getElem?_append_left (by rw [htake]; omega),
              List.getElem?_take_of_lt (by omega)]
        rw [hall, tagsFrom_of_tag hfront, List.drop_left' htake, hsplice new ts hnew hts,
          List.flatMap_cons, if_neg (by omega)]
        rfl

/-! ## descriptors -/

namespace Descriptor

variable {d : Descriptor} {t u : Tag}

theorem encodable_of_mem_tags (h : t ∈ d.tags) : t.type ≠ TagType.stop ∧ t.size < 0x100000000 :=
  encodable_of_mem_tagsFrom _ _ t h

theorem dvd_offset_of_mem_tags (h : t ∈ d.tags) : 8 ∣ t.offset :=
  dvd_offset_of_mem_tagsFrom _ _ (by decide) t h

theorem pairwise_tags (d : Descriptor) : d.tags.Pairwise fun t u => t.stop ≤ u.offset :=
  pairwise_tagsFrom _ _

theorem tags_splice (h : t ∈ d.tags) :
    ∃ pre tail, d.bytes = pre ++ t.encode ++ tail ∧ pre.length = t.offset ∧
      ∀ new ts, new.length = t.size →
        tagsFrom (new ++ tail) t.offset
          = ts ++ tagsFrom (tail.drop (align8 t.size - t.size)) (t.offset + align8 t.size) →
        tags ⟨pre ++ new ++ tail⟩
          = d.tags.flatMap fun u => if u.offset = t.offset then ts else [u] := by
  obtain ⟨pre, tail, hrest, hpre, hsplice⟩ := tagsFrom_splice _ _ t h
  have hbounds := bounds_of_mem_tags h
  have hlen : (d.bytes.take headerSize).length = headerSize := by
    unfold Descriptor.size Tag.stop at hbounds
    rw [List.length_take]
    omega
  refine ⟨d.bytes.take headerSize ++ pre, tail, ?_, ?_, fun new ts hnew hts => ?_⟩
  · rw [List.append_assoc, List.append_assoc, ← List.append_assoc pre, ← hrest,
      List.take_append_drop]
  · rw [List.length_append, hlen]
    exact hpre
  · have hall : d.bytes.take headerSize ++ pre ++ new ++ tail
        = d.bytes.take headerSize ++ (pre ++ new ++ tail) := by
      rw [List.append_assoc, List.append_assoc, List.append_assoc]
    show tagsFrom ((d.bytes.take headerSize ++ pre ++ new ++ tail).drop headerSize) headerSize = _
    rw [hall, List.drop_left' hlen]
    exact hsplice new ts hnew hts

theorem tagAt?_of_mem (h : t ∈ d.tags) : d.tagAt? t.offset = some t := by
  obtain ⟨htype, hsize⟩ := encodable_of_mem_tags h
  obtain ⟨pre, tail, hbytes, hpre, -⟩ := tags_splice h
  have hdrop : d.bytes.drop t.offset = t.encode ++ tail := by
    rw [hbytes, List.append_assoc, List.drop_left' hpre]
  unfold tagAt? lookup
  rw [hdrop, Lookup.front_encode htype hsize]
  rfl

theorem offset_inj (ht : t ∈ d.tags) (hu : u ∈ d.tags) (h : t.offset = u.offset) : t = u := by
  have htag := tagAt?_of_mem ht
  rw [h, tagAt?_of_mem hu] at htag
  exact (Option.some.inj htag).symm

theorem window?_of_mem (h : t ∈ d.tags) : d.bytes.window? t.offset t.size = some t.encode := by
  obtain ⟨pre, tail, hbytes, hpre, -⟩ := tags_splice h
  rw [hbytes]
  exact Bytes.window?_append hpre t.length_encode

theorem window?_type_of_mem (h : t ∈ d.tags) :
    d.bytes.window? t.offset 4 = some (Bytes.le32 t.type) := by
  obtain ⟨pre, tail, hbytes, hpre, -⟩ := tags_splice h
  have hpieces : d.bytes = pre ++ Bytes.le32 t.type
      ++ (Bytes.le32 (UInt32.ofNat t.size) ++ t.payload ++ tail) := by
    rw [hbytes, Tag.encode]
    simp only [List.append_assoc]
  rw [hpieces]
  exact Bytes.window?_append hpre (Bytes.length_le32 _)

/-- the bytes of one tag are exchanged for those of a tag of the same size -/
theorem tags_replace (h : t ∈ d.tags) {t' : Tag} (hoff : t'.offset = t.offset)
    (hsize : t'.size = t.size) (htype : t'.type ≠ TagType.stop) :
    ∃ pre tail, d.bytes = pre ++ t.encode ++ tail ∧ pre.length = t.offset ∧
      tags ⟨pre ++ t'.encode ++ tail⟩
        = d.tags.map fun u => if u.offset = t.offset then t' else u := by
  obtain ⟨pre, tail, hbytes, hpre, hsplice⟩ := tags_splice h
  refine ⟨pre, tail, hbytes, hpre, ?_⟩
  have hlt : t'.size < 0x100000000 := by
    rw [hsize]
    exact (encodable_of_mem_tags h).2
  have hwalk := tagsFrom_encode htype hlt tail
  rw [hoff, hsize] at hwalk
  rw [hsplice t'.encode [t'] (by rw [t'.length_encode, hsize]) hwalk, List.map_eq_flatMap]
  refine List.flatMap_congr fun u _ => ?_
  split <;> rfl

end Descriptor

end ChainBoot
