import ChainBoot.Proofs.Edits

/-!
# The walk is the chain of headers that fit

`Tag.Stands` says of the raw bytes that a tag stands at its offset, `Ends` that none does, and for
which of four reasons; `ends_iff` that there is no third case.  `Linked` is the chain of the tags
that stand one behind the other.

* `linked_iff`       the walk is the chain, and there is no other one;
* `parse_chained`    what this says about a descriptor: where its tags stand, that they are apart
                     and how many there can be, and that bytes behind the end have no part in it.
-/

namespace ChainBoot

/-! ## what stands at an offset -/

/-- the first `n` bytes hold the tag at its offset: the type and the size that stand there are its
own, and it ends in front of `n` -/
structure Tag.Stands (bs : Bytes) (n : Nat) (t : Tag) : Prop where
  type : bs.u32At? t.offset = some t.type
  size : ∃ size, bs.u32At? (t.offset + 4) = some size ∧ size.toNat = t.size
  live : t.type ≠ TagType.stop
  covers : tagHeaderSize ≤ t.size
  fits : t.offset + t.size ≤ n
  payload : t.payload = bs.slice (t.offset + tagHeaderSize) (t.offset + t.size)

/-- the first `n` bytes have no tag at an offset: its header does not fit, it ends the walk, its
size does not cover the header, or it runs past the end -/
def Ends (bs : Bytes) (n o : Nat) : Prop :=
  n < o + tagHeaderSize ∨ ∃ type size, bs.u32At? o = some type ∧ bs.u32At? (o + 4) = some size
    ∧ (type = TagType.stop ∨ size.toNat < tagHeaderSize ∨ n < o + size.toNat)

section
variable {bs : Bytes} {n o : Nat}

theorem u32At?_rest {k : Nat} (h : o + k + 4 ≤ n) :
    Bytes.u32At? ((bs.take n).drop o) k = bs.u32At? (o + k) := by
  rw [Bytes.u32At?_drop, Bytes.u32At?_of_take h]

theorem Lookup.front_eq_tag_iff_stands (hn : n ≤ bs.length) (t : Tag) :
    Lookup.front ((bs.take n).drop o) o = .tag t ↔ t.offset = o ∧ t.Stands bs n := by
  have hlen : ((bs.take n).drop o).length = n - o := by
    rw [List.length_drop, List.length_take, Nat.min_eq_left hn]
  have hslice : ∀ size : Nat, o + size ≤ n →
      (((bs.take n).drop o).take size).drop tagHeaderSize
        = bs.slice (o + tagHeaderSize) (o + size) := by
    intro size hsize
    unfold Bytes.slice
    rw [List.drop_take, List.drop_drop, List.drop_take, List.take_take]
    congr 1
    omega
  rw [Lookup.front_eq_tag_iff, hlen]
  constructor
  · rintro ⟨size, h0, h4, hlive, hz, hle, ho, hp⟩
    have h8 : 8 ≤ size.toNat := hz
    have hsize : t.size = size.toNat := Lookup.size_eq hz (hlen ▸ hle) hp
    rw [u32At?_rest (by omega)] at h0 h4
    rw [hslice _ (by omega)] at hp
    subst ho
    exact ⟨rfl, h0, ⟨size, h4, hsize.symm⟩, hlive, hsize ▸ hz, by omega, hsize ▸ hp⟩
  · rintro ⟨rfl, h0, ⟨size, h4, hsize⟩, hlive, hz, hfits, hp⟩
    have h8 : 8 ≤ t.size := hz
    refine ⟨size, ?_, ?_, hlive, hsize ▸ hz, by omega, rfl, ?_⟩
    · rw [u32At?_rest (by omega)]
      exact h0
    · rw [u32At?_rest (by omega)]
      exact h4
    · rw [hslice _ (by omega), hsize]
      exact hp

/-- there is a tag at an offset, or the walk ends there -/
theorem ends_iff (hn : n ≤ bs.length) : Ends bs n o ↔ ∀ t : Tag, t.offset = o → ¬ t.Stands bs n := by
  constructor
  · rintro hends t rfl ⟨h0, ⟨size, h4, hsize⟩, hlive, hcovers, hfits, -⟩
    rcases hends with hroom | ⟨_, _, h0', h4', hstop | hsmall | hover⟩
    · omega
    · rw [h0] at h0'
      cases h0'
      exact hlive hstop
    · rw [h4] at h4'
      cases h4'
      omega
    · rw [h4] at h4'
      cases h4'
      omega
  · intro hnone
    refine Classical.byContradiction fun hends => ?_
    obtain ⟨hroom, hfields⟩ := not_or.mp hends
    -- with no reason to end, the two words at the offset are the header of a tag
    have h8 : o + 8 ≤ n := Nat.not_lt.mp hroom
    obtain ⟨type, h0⟩ := Bytes.exists_u32At? (show o + 4 ≤ bs.length by omega)
    obtain ⟨size, h4⟩ := Bytes.exists_u32At? (show o + 4 + 4 ≤ bs.length by omega)
    have hgood : type ≠ TagType.stop ∧ tagHeaderSize ≤ size.toNat ∧ o + size.toNat ≤ n := by
      refine ⟨fun h => hfields ⟨type, size, h0, h4, .inl h⟩, ?_, ?_⟩
      · exact Nat.not_lt.mp fun h => hfields ⟨type, size, h0, h4, .inr (.inl h)⟩
      · exact Nat.not_lt.mp fun h => hfields ⟨type, size, h0, h4, .inr (.inr h)⟩
    obtain ⟨hlive, hcovers, hfits⟩ := hgood
    let t : Tag := ⟨o, type, bs.slice (o + tagHeaderSize) (o + size.toNat)⟩
    have hsize : t.size = size.toNat := by
      show tagHeaderSize + (bs.slice _ _).length = _
      unfold Bytes.slice
      rw [List.length_take, List.length_drop]
      omega
    exact hnone t rfl ⟨h0, ⟨size, h4, hsize.symm⟩, hlive, Nat.le_add_right .., by rw [hsize]; exact hfits,
      by rw [hsize]⟩

theorem Lookup.front_tag?_eq_none_iff (hn : n ≤ bs.length) :
    (Lookup.front ((bs.take n).drop o) o).tag? = none ↔ Ends bs n o := by
  rw [ends_iff hn]
  constructor
  · rintro h t ho ht
    rw [(Lookup.front_eq_tag_iff_stands hn t).mpr ⟨ho, ht⟩] at h
    cases h
  · intro h
    cases hf : Lookup.front ((bs.take n).drop o) o with
    | tag t =>
      obtain ⟨ho, ht⟩ := (Lookup.front_eq_tag_iff_stands hn t).mp hf
      exact absurd ht (h t ho)
    | _ => rfl

/-! ## the chain -/

/-- the tags from an offset on: each stands where the one in front of it, rounded up to a multiple
of eight, ends, and there is none behind the last one -/
def Linked (bs : Bytes) (n : Nat) : Nat → List Tag → Prop
  | o, [] => Ends bs n o
  | o, t :: ts => t.offset = o ∧ t.Stands bs n ∧ Linked bs n (align8 (o + t.size)) ts

theorem align8_add {n : Nat} (h : 8 ∣ o) : align8 (o + n) = o + align8 n := by
  unfold align8
  omega

/-- **The walk is the chain.** -/
theorem linked_iff (hn : n ≤ bs.length) {ts : List Tag} :
    ∀ {o}, 8 ∣ o → (Linked bs n o ts ↔ ts = tagsFrom ((bs.take n).drop o) o) := by
  induction ts with
  | nil =>
    intro o _
    rw [Linked, ← Lookup.front_tag?_eq_none_iff hn]
    constructor
    · intro h
      rw [tagsFrom_of_none h]
    · intro h
      cases hf : Lookup.front ((bs.take n).drop o) o with
      | tag t =>
        rw [tagsFrom_of_tag hf] at h
        cases h
      | _ => rfl
  | cons t ts ih =>
    intro o ho
    have hrest : ((bs.take n).drop o).drop (align8 t.size) = (bs.take n).drop (o + align8 t.size) :=
      List.drop_drop
    rw [Linked, ← and_assoc, ← Lookup.front_eq_tag_iff_stands hn, align8_add ho,
      ih (Nat.dvd_add ho (dvd_align8 _))]
    constructor
    · rintro ⟨hf, hts⟩
      rw [tagsFrom_of_tag hf, hrest, ← hts]
    · intro h
      cases hf : Lookup.front ((bs.take n).drop o) o with
      | tag u =>
        rw [tagsFrom_of_tag hf] at h
        obtain ⟨rfl, hts⟩ := List.cons.inj h
        rw [hrest] at hts
        exact ⟨rfl, hts⟩
      | _ =>
        rw [tagsFrom_of_none (by rw [hf]; rfl)] at h
        cases h

namespace Linked

variable {ts : List Tag}

theorem stands (h : Linked bs n o ts) : ∀ t ∈ ts, t.Stands bs n := by
  induction ts generalizing o with
  | nil =>
    intro t ht
    cases ht
  | cons t ts ih =>
    obtain ⟨-, ht, hts⟩ := h
    exact List.forall_mem_cons.mpr ⟨ht, ih hts⟩

theorem head (h : Linked bs n o ts) {t : Tag} (ht : ts.head? = some t) : t.offset = o := by
  cases ts with
  | nil => cases ht
  | cons u ts =>
    cases ht
    exact h.1

theorem isChain (h : Linked bs n o ts) :
    ts.IsChain fun t u => u.offset = align8 (t.offset + t.size) := by
  induction ts generalizing o with
  | nil => exact .nil
  | cons t ts ih =>
    obtain ⟨rfl, -, hts⟩ := h
    cases ts with
    | nil => exact .singleton t
    | cons u ts => exact .cons_cons hts.1 (ih hts)

theorem length_le (h : Linked bs n o ts) (hne : ts ≠ []) : o + 8 * ts.length ≤ n := by
  induction ts generalizing o with
  | nil => exact absurd rfl hne
  | cons t ts ih =>
    obtain ⟨rfl, ht, hts⟩ := h
    have hcovers : 8 ≤ t.size := ht.covers
    have hfits := ht.fits
    have hnext := le_align8 (t.offset + t.size)
    rw [List.length_cons]
    cases ts with
    | nil =>
      rw [List.length_nil]
      omega
    | cons u us =>
      have := ih hts (List.cons_ne_nil _ _)
      omega

theorem ends (h : Linked bs n o ts) :
    Ends bs n ((ts.getLast?.map fun t => align8 (t.offset + t.size)).getD o) := by
  induction ts generalizing o with
  | nil => exact h
  | cons t ts ih =>
    obtain ⟨rfl, -, hts⟩ := h
    rw [List.getLast?_cons]
    have := ih hts
    cases hl : ts.getLast? with
    | none =>
      rw [hl] at this
      exact this
    | some u =>
      rw [hl] at this
      exact this

end Linked

end

namespace Descriptor

/-- the tags are the bounds-checked chain of headers in the first `n` bytes -/
structure Chained (bs : Bytes) (n : Nat) (ts : List Tag) : Prop where
  first : ∀ t, ts.head? = some t → t.offset = headerSize
  next : ts.IsChain fun t u => u.offset = align8 (t.offset + t.size)
  stands : ∀ t ∈ ts, t.Stands bs n
  aligned : ∀ t ∈ ts, 8 ∣ t.offset
  apart : ts.Pairwise fun t u => t.offset + t.size ≤ u.offset
  count : ts.length ≤ (n - headerSize) / 8
  /-- behind the last tag there is none -/
  ends : Ends bs n ((ts.getLast?.map fun t => align8 (t.offset + t.size)).getD headerSize)

theorem linked_tags_iff {bs : Bytes} {n : Nat} (hn : n ≤ bs.length) (ts : List Tag) :
    Linked bs n headerSize ts ↔ ts = tags ⟨bs.take n⟩ :=
  linked_iff hn ⟨1, rfl⟩

theorem chained_tags {bs : Bytes} {n : Nat} (hn : n ≤ bs.length) :
    Chained bs n (tags ⟨bs.take n⟩) := by
  have hlinked := (linked_tags_iff hn _).mpr rfl
  refine ⟨fun t => hlinked.head, hlinked.isChain, hlinked.stands,
    fun t => dvd_offset_of_mem_tags, pairwise_tags _, ?_, hlinked.ends⟩
  rw [headerSize] at hlinked ⊢
  cases hts : tags ⟨bs.take n⟩ with
  | nil => exact Nat.zero_le _
  | cons t ts =>
    have := hlinked.length_le (by rw [hts]; exact List.cons_ne_nil _ _)
    rw [hts] at this
    omega

/-- bytes behind the declared size are not read -/
theorem parse_congr {as bs : Bytes} {d : Descriptor} (h : parse bs = .ok d)
    (heq : as.take d.size = bs.take d.size) : parse as = .ok d := by
  obtain ⟨⟨total, ht, hsize⟩, hlo, hhi, hd⟩ := parse_inv h
  have h8 : 8 ≤ d.size := hlo
  have hlen := congrArg List.length heq
  rw [List.length_take, List.length_take] at hlen
  have hword : peekTotal? as = peekTotal? bs := by
    unfold peekTotal?
    rw [← Bytes.u32At?_of_take (k := d.size) (by omega), heq, Bytes.u32At?_of_take (by omega)]
  refine (parse_eq_ok_iff ..).mpr ⟨total, hword.trans ht, by omega, by omega, ?_⟩
  rw [hsize, heq]
  exact hd

/-- **The walk over an accepted descriptor is the chain of headers that fit, and nothing else.**
It ends for one of four reasons, and bytes behind the declared size have no part in it. -/
theorem parse_chained {bs : Bytes} {d : Descriptor} (h : parse bs = .ok d) :
    (∃ total, peekTotal? bs = some total ∧ total.toNat = d.size)
    ∧ Chained bs d.size d.tags
    ∧ (∀ ts, Linked bs d.size headerSize ts ↔ ts = d.tags)
    ∧ ∀ as : Bytes, as.take d.size = bs.take d.size → parse as = .ok d := by
  obtain ⟨htotal, -, hhi, hd⟩ := parse_inv h
  refine ⟨htotal, ?_, fun ts => ?_, fun as heq => parse_congr h heq⟩
  · have hchained := chained_tags hhi
    rwa [← hd] at hchained
  · rw [linked_tags_iff hhi, ← hd]

/-- two tags, a third one that runs past the end, and bytes behind the end that look like a tag -/
def overrun : Bytes :=
  List.flatMap Bytes.le32 [56, 0, 1, 10, 0x78, 0, 7, 9, 0xAA, 0, 3, 0x1000, 0, 0, 1, 8]

theorem overrun_chained : parse overrun = .ok ⟨overrun.take 56⟩
    ∧ Chained overrun 56 [⟨8, 1, [0x78, 0]⟩, ⟨24, 7, [0xAA]⟩] ∧ Ends overrun 56 40
    ∧ parse (overrun.take 56) = .ok ⟨overrun.take 56⟩ := by
  have h : parse overrun = .ok ⟨overrun.take 56⟩ := rfl
  have htags : tags ⟨overrun.take 56⟩ = [⟨8, 1, [0x78, 0]⟩, ⟨24, 7, [0xAA]⟩] := by decide +kernel
  obtain ⟨-, hchained, -, hprefix⟩ := parse_chained h
  rw [htags] at hchained
  exact ⟨h, hchained, hchained.ends, hprefix _ (List.take_take ..)⟩

end Descriptor

end ChainBoot
