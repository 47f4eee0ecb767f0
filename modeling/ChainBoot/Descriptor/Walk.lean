import ChainBoot.Descriptor

/-!
# Laws of the walk

A lookup depends on the bytes of the tag it finds alone, so a change behind them leaves it as it
is (`Lookup.front_congr`), and a new type leaves all but the type as it is
(`Lookup.front_retype`).  Hence `tagsFrom_retype`: the type of one tag of a walk can be overwritten
without a change to any other tag.
-/

namespace ChainBoot

namespace Lookup

theorem front_eq_tag_iff (rest : Bytes) (offset : Nat) (t : Tag) :
    front rest offset = .tag t ↔ ∃ size : UInt32,
      rest.u32At? 0 = some t.type ∧ rest.u32At? 4 = some size ∧ t.type ≠ TagType.stop
        ∧ tagHeaderSize ≤ size.toNat ∧ size.toNat ≤ rest.length
        ∧ t.offset = offset ∧ t.payload = (rest.take size.toNat).drop tagHeaderSize := by
  obtain ⟨o, ty, pl⟩ := t
  unfold front
  constructor
  · intro h
    split at h
    · rename_i type size h0 h4
      split at h
      · cases h
      · rename_i hs
        split at h
        · cases h
        · rename_i hz
          split at h
          · cases h
          · rename_i w hw
            obtain ⟨hle, rfl⟩ := (Bytes.window?_eq_some_iff ..).mp hw
            cases h
            exact ⟨size, h0, h4, hs, Nat.le_of_not_lt hz, hle, rfl, by rw [List.drop_zero]⟩
    · cases h
  · rintro ⟨size, h0, h4, hs, hz, hle, rfl, hp⟩
    dsimp only at h0 hs hp
    have hw : rest.window? 0 size.toNat = some (rest.take size.toNat) :=
      (Bytes.window?_eq_some_iff ..).mpr ⟨hle, by rw [List.drop_zero]⟩
    rw [h0, h4]
    dsimp only
    rw [if_neg hs, if_neg (Nat.not_lt.mpr hz), hw, hp]

theorem size_eq {rest : Bytes} {size : UInt32} {t : Tag} (hz : tagHeaderSize ≤ size.toNat)
    (hle : size.toNat ≤ rest.length)
    (hp : t.payload = (rest.take size.toNat).drop tagHeaderSize) : t.size = size.toNat := by
  unfold Tag.size
  rw [hp, List.length_drop, List.length_take]
  omega

theorem front_congr {as bs : Bytes} {offset : Nat} {t : Tag} (h : front as offset = .tag t)
    (hlen : t.size ≤ bs.length) (heq : ∀ i, i < t.size → as[i]? = bs[i]?) :
    front bs offset = .tag t := by
  obtain ⟨size, h0, h4, hs, hz, hle, ho, hp⟩ := (front_eq_tag_iff ..).mp h
  have hsize : t.size = size.toNat := size_eq hz hle hp
  rw [hsize] at hlen heq
  have hz' : 8 ≤ size.toNat := hz
  refine (front_eq_tag_iff ..).mpr ⟨size, ?_, ?_, hs, hz, hlen, ho, ?_⟩
  · rw [← h0]
    unfold Bytes.u32At?
    rw [Bytes.window?_congr fun i _ hi => (heq i (by omega)).symm]
  · rw [← h4]
    unfold Bytes.u32At?
    rw [Bytes.window?_congr fun i _ hi => (heq i (by omega)).symm]
  · rw [hp]
    congr 1
    apply List.ext_getElem?
    intro i
    by_cases hi : i < size.toNat
    · rw [List.getElem?_take_of_lt hi, List.getElem?_take_of_lt hi, heq i hi]
    · rw [List.getElem?_take_eq_none (by omega), List.getElem?_take_eq_none (by omega)]

theorem front_retype {rest : Bytes} {offset : Nat} {t : Tag} (h : front rest offset = .tag t)
    {type : UInt32} (htype : type ≠ TagType.stop) :
    front (rest.overwrite 0 (Bytes.le32 type)) offset = .tag { t with type := type } := by
  obtain ⟨size, h0, h4, hs, hz, hle, ho, hp⟩ := (front_eq_tag_iff ..).mp h
  have hz' : 8 ≤ size.toNat := hz
  have hroom : 0 + (Bytes.le32 type).length ≤ rest.length := by rw [Bytes.length_le32]; omega
  have hget := Bytes.getElem?_overwrite hroom
  rw [Bytes.length_le32] at hget
  refine (front_eq_tag_iff ..).mpr ⟨size, ?_, ?_, htype, hz, ?_, ho, ?_⟩
  · have hw := Bytes.window?_overwrite hroom
    rw [Bytes.length_le32] at hw
    unfold Bytes.u32At?
    rw [hw]
    exact congrArg some (Bytes.value_le32 type)
  · have hw : (rest.overwrite 0 (Bytes.le32 type)).window? 4 4 = rest.window? 4 4 :=
      Bytes.window?_congr fun i hi _ => by rw [hget, if_neg (by omega)]
    rw [← h4]
    unfold Bytes.u32At?
    rw [hw]
  · rw [Bytes.length_overwrite hroom]
    exact hle
  · show t.payload = _
    rw [hp, tagHeaderSize]
    apply List.ext_getElem?
    intro i
    rw [List.getElem?_drop, List.getElem?_drop]
    by_cases hi : 8 + i < size.toNat
    · rw [List.getElem?_take_of_lt hi, List.getElem?_take_of_lt hi, hget, if_neg (by omega)]
    · rw [List.getElem?_take_eq_none (by omega), List.getElem?_take_eq_none (by omega)]

theorem offset_of_front {rest : Bytes} {offset : Nat} {t : Tag} (h : front rest offset = .tag t) :
    t.offset = offset := by
  obtain ⟨_, _, _, _, _, _, ho, _⟩ := (front_eq_tag_iff ..).mp h
  exact ho

end Lookup

/-! ## one step of the walk -/

theorem tagsFrom_of_tag {rest : Bytes} {offset : Nat} {t : Tag}
    (h : Lookup.front rest offset = .tag t) :
    tagsFrom rest offset = t :: tagsFrom (rest.drop (align8 t.size)) (offset + align8 t.size) := by
  rw [tagsFrom]
  split
  · rename_i u hu
    rw [h] at hu
    cases hu
    rfl
  · rename_i hne
    exact absurd h (hne t)

theorem tagsFrom_of_none {rest : Bytes} {offset : Nat}
    (h : (Lookup.front rest offset).tag? = none) : tagsFrom rest offset = [] := by
  rw [tagsFrom]
  split
  · rename_i u hu
    rw [hu] at h
    cases h
  · rfl

/-- induction along a walk -/
theorem tagsFrom_induction {P : Bytes → Nat → Prop}
    (stop : ∀ rest offset, (Lookup.front rest offset).tag? = none → P rest offset)
    (step : ∀ rest offset t, Lookup.front rest offset = .tag t →
      P (rest.drop (align8 t.size)) (offset + align8 t.size) → P rest offset)
    (rest : Bytes) (offset : Nat) : P rest offset := by
  match h : Lookup.front rest offset with
  | .tag t =>
    exact step rest offset t h (tagsFrom_induction stop step _ _)
  | .outside => exact stop _ _ (by rw [h]; rfl)
  | .ended => exact stop _ _ (by rw [h]; rfl)
  | .undersized _ _ => exact stop _ _ (by rw [h]; rfl)
  | .overrun _ _ => exact stop _ _ (by rw [h]; rfl)
termination_by rest.length
decreasing_by
  have hs := Lookup.size_of_front h
  have ha := le_align8 t.size
  rw [tagHeaderSize] at hs
  rw [List.length_drop]
  omega

theorem bounds_of_mem_tagsFrom (rest : Bytes) (offset : Nat) :
    ∀ t ∈ tagsFrom rest offset,
      offset ≤ t.offset ∧ tagHeaderSize ≤ t.size ∧ t.stop ≤ offset + rest.length := by
  induction rest, offset using tagsFrom_induction with
  | stop rest offset h => rw [tagsFrom_of_none h]; intro t ht; cases ht
  | step rest offset u h ih =>
    rw [tagsFrom_of_tag h]
    have hu := Lookup.size_of_front h
    have ho := Lookup.offset_of_front h
    intro t ht
    rcases List.mem_cons.mp ht with rfl | ht
    · unfold Tag.stop
      omega
    · obtain ⟨h1, h2, h3⟩ := ih t ht
      rw [List.length_drop] at h3
      have ha := le_align8 u.size
      unfold Tag.stop at h3 ⊢
      refine ⟨by omega, h2, ?_⟩
      rw [tagHeaderSize] at h2 hu
      omega

theorem tagsFrom_retype {type : UInt32} (htype : type ≠ TagType.stop) (rest : Bytes)
    (offset : Nat) : ∀ t ∈ tagsFrom rest offset,
      tagsFrom (rest.overwrite (t.offset - offset) (Bytes.le32 type)) offset
        = (tagsFrom rest offset).map fun u =>
            if u.offset = t.offset then { u with type := type } else u := by
  induction rest, offset using tagsFrom_induction with
  | stop rest offset h => rw [tagsFrom_of_none h]; intro t ht; cases ht
  | step rest offset u h ih =>
    have hu := Lookup.size_of_front h
    have ho := Lookup.offset_of_front h
    have ha := le_align8 u.size
    rw [tagHeaderSize] at hu
    intro t ht
    rw [tagsFrom_of_tag h] at ht ⊢
    rcases List.mem_cons.mp ht with rfl | ht
    · have hroom : 0 + (Bytes.le32 type).length ≤ rest.length := by
        rw [Bytes.length_le32]; omega
      rw [ho, Nat.sub_self, tagsFrom_of_tag (Lookup.front_retype h htype), List.map_cons, if_pos ho]
      show _ :: tagsFrom ((rest.overwrite 0 (Bytes.le32 type)).drop (align8 t.size))
        (offset + align8 t.size) = _
      rw [Bytes.drop_overwrite_of_le hroom (by rw [Bytes.length_le32]; omega)]
      congr 1
      refine (Eq.trans (List.map_congr_left fun v hv => ?_) (List.map_id _)).symm
      have hv := bounds_of_mem_tagsFrom _ _ v hv
      rw [if_neg (by omega)]
      rfl
    · have hb := bounds_of_mem_tagsFrom _ _ t ht
      rw [List.length_drop] at hb
      unfold Tag.stop at hb
      rw [tagHeaderSize] at hb
      have hroom : t.offset - offset + (Bytes.le32 type).length ≤ rest.length := by
        rw [Bytes.length_le32]; omega
      have hfront : Lookup.front (rest.overwrite (t.offset - offset) (Bytes.le32 type)) offset
          = .tag u := by
        refine Lookup.front_congr h ?_ ?_
        · rw [Bytes.length_overwrite hroom]; omega
        · intro i hi
          rw [Bytes.getElem?_overwrite hroom, if_neg (by omega)]
      have hdrop := Bytes.drop_overwrite hroom (k := align8 u.size) (by omega)
      have hoff : t.offset - offset - align8 u.size = t.offset - (offset + align8 u.size) := by omega
      rw [tagsFrom_of_tag hfront, hdrop, hoff, ih t ht, List.map_cons, if_neg (by omega)]

namespace Descriptor

theorem bounds_of_mem_tags {d : Descriptor} {t : Tag} (h : t ∈ d.tags) :
    headerSize ≤ t.offset ∧ tagHeaderSize ≤ t.size ∧ t.stop ≤ d.size := by
  obtain ⟨h1, h2, h3⟩ := bounds_of_mem_tagsFrom _ _ t h
  refine ⟨h1, h2, ?_⟩
  rw [List.length_drop] at h3
  unfold Descriptor.size
  unfold Tag.stop at h3 ⊢
  rw [headerSize] at h1 h3
  rw [tagHeaderSize] at h2
  omega

/-- a tag of the walk gets a new type, all others stay -/
theorem tags_retype {d : Descriptor} {t : Tag} (h : t ∈ d.tags) {type : UInt32}
    (htype : type ≠ TagType.stop) :
    tags ⟨d.bytes.overwrite t.offset (Bytes.le32 type)⟩
      = d.tags.map fun u => if u.offset = t.offset then { u with type := type } else u := by
  obtain ⟨h1, h2, h3⟩ := bounds_of_mem_tags h
  have hroom : t.offset + (Bytes.le32 type).length ≤ d.bytes.length := by
    rw [Bytes.length_le32]
    rw [tagHeaderSize] at h2
    unfold Tag.stop Descriptor.size at h3
    omega
  unfold tags
  rw [Bytes.drop_overwrite hroom h1]
  exact tagsFrom_retype htype _ _ t h

end Descriptor

end ChainBoot
