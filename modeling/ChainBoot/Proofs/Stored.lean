import ChainBoot.Loader.Step
import ChainBoot.Proofs.Edits
import ChainBoot.Proofs.Memory

/-!
# A descriptor in memory

`Loader.descriptorAt` reads twice: a header, for the extent that the descriptor declares, and then
that extent.  `unreadable_iff` lists what can go wrong.  It succeeds where the bytes of the extent
are a descriptor that parses to itself (`descriptorAt_eq_ok_iff`).  Hence a descriptor stays as
long as its extent does (`descriptorAt_frame`), arrives where its extent is copied to
(`descriptorAt_copy`), and is replaced by writing another one of its size over it
(`descriptorAt_write`), also behind a copy to a place away from it (`editDescriptor_of_copy`).
-/

namespace ChainBoot

theorem Descriptor.peekTotal?_take {bs : Bytes} {k : Nat} (h : headerSize ≤ k) :
    peekTotal? (bs.take k) = peekTotal? bs := by
  unfold peekTotal? Bytes.u32At?
  rw [Bytes.window?_of_take (Nat.le_trans (by decide) h)]

namespace Loader

variable {m m' : Memory} {a b : Address} {r : Range} {d d' : Descriptor} {e : LoadError}

/-! ## errors that are passed on -/

section
variable {α ε ε' : Type} {f : ε → ε'} {x : Except ε α}

theorem mapError_eq_ok_iff {y : α} : x.mapError f = .ok y ↔ x = .ok y := by
  cases x with
  | error e => exact ⟨fun h => (nomatch h), fun h => (nomatch h)⟩
  | ok z => exact ⟨fun h => congrArg _ (Except.ok.inj h), fun h => congrArg _ (Except.ok.inj h)⟩

theorem mapError_eq_error_iff {e' : ε'} :
    x.mapError f = .error e' ↔ ∃ e, x = .error e ∧ f e = e' := by
  cases x with
  | error e =>
    constructor
    · intro h
      exact ⟨e, rfl, Except.error.inj h⟩
    · rintro ⟨_, h, rfl⟩
      cases h
      rfl
  | ok z => exact ⟨fun h => (nomatch h), fun ⟨_, h, _⟩ => (nomatch h)⟩

end

/-! ## the two reads -/

theorem declaredExtent_eq_ok_iff : declaredExtent m a = .ok r ↔ ∃ header total,
    m.read (.span a Descriptor.headerSize) = .ok header
      ∧ Descriptor.peekTotal? header = some total ∧ r = .span a total.toNat := by
  unfold declaredExtent
  constructor
  · intro h
    split at h
    · cases h
    · rename_i header hheader
      split at h
      · cases h
      · rename_i total htotal
        exact ⟨header, total, hheader, htotal, (Except.ok.inj h).symm⟩
  · rintro ⟨header, total, hheader, htotal, rfl⟩
    rw [hheader]
    dsimp only
    rw [htotal]

theorem descriptorWithin_eq_ok_iff :
    descriptorWithin m r = .ok d ↔ ∃ bs, m.read r = .ok bs ∧ Descriptor.parse bs = .ok d := by
  unfold descriptorWithin
  constructor
  · intro h
    split at h
    · cases h
    · rename_i bs hbs
      exact ⟨bs, hbs, mapError_eq_ok_iff.mp h⟩
  · rintro ⟨bs, hbs, hparse⟩
    rw [hbs]
    exact mapError_eq_ok_iff.mpr hparse

theorem descriptorAt_of_extent (h : declaredExtent m a = .ok r) :
    descriptorAt m a = descriptorWithin m r := by
  unfold descriptorAt
  rw [h]

theorem exists_extent_of_descriptorAt (h : descriptorAt m a = .ok d) :
    ∃ r, declaredExtent m a = .ok r ∧ descriptorWithin m r = .ok d := by
  cases hextent : declaredExtent m a with
  | error e =>
    unfold descriptorAt at h
    rw [hextent] at h
    cases h
  | ok r =>
    rw [descriptorAt_of_extent hextent] at h
    exact ⟨r, rfl, h⟩

/-- the reasons why there is no descriptor at an address -/
inductive Unreadable (m : Memory) (a : Address) : LoadError → Prop
  | header : m.bankOf? (.span a Descriptor.headerSize) = none →
      Unreadable m a (.memory (.span a Descriptor.headerSize))
  | cutHeader {header : Bytes} : m.read (.span a Descriptor.headerSize) = .ok header →
      header.length < 4 → Unreadable m a (.descriptor .tooShort)
  | extent {r : Range} : declaredExtent m a = .ok r → m.bankOf? r = none →
      Unreadable m a (.memory r)
  | cutExtent {r : Range} {bs : Bytes} : declaredExtent m a = .ok r → m.read r = .ok bs →
      bs.length < 4 → Unreadable m a (.descriptor .tooShort)
  | badTotalSize {r : Range} {bs : Bytes} {total : UInt32} : declaredExtent m a = .ok r →
      m.read r = .ok bs → bs.u32At? 0 = some total →
      total.toNat < Descriptor.headerSize ∨ bs.length < total.toNat →
      Unreadable m a (.descriptor (.badTotalSize total bs.length))

theorem declaredExtent_eq_error (h : declaredExtent m a = .error e) : Unreadable m a e := by
  unfold declaredExtent at h
  split at h
  · rename_i hread
    cases h
    obtain ⟨hbank, rfl⟩ := Memory.read_eq_error_iff.mp hread
    exact .header hbank
  · rename_i header hread
    split at h
    · rename_i hpeek
      cases h
      exact .cutHeader hread ((Bytes.u32At?_eq_none_iff header 0).mp hpeek)
    · cases h

theorem descriptorWithin_eq_error (hextent : declaredExtent m a = .ok r)
    (h : descriptorWithin m r = .error e) : Unreadable m a e := by
  unfold descriptorWithin at h
  split at h
  · rename_i hread
    cases h
    obtain ⟨hbank, rfl⟩ := Memory.read_eq_error_iff.mp hread
    exact .extent hextent hbank
  · rename_i bs hread
    unfold Descriptor.parse at h
    split at h
    · rename_i hpeek
      cases h
      exact .cutExtent hextent hread ((Bytes.u32At?_eq_none_iff bs 0).mp hpeek)
    · rename_i total hpeek
      split at h
      · rename_i hsize
        cases h
        exact .badTotalSize hextent hread hpeek hsize
      · cases h

/-- **There is no descriptor exactly for these reasons.** -/
theorem unreadable_iff : Unreadable m a e ↔ descriptorAt m a = .error e := by
  constructor
  · intro h
    cases h with
    | header hbank =>
      unfold descriptorAt declaredExtent
      rw [Memory.read_eq_error_iff.mpr ⟨hbank, rfl⟩]
    | cutHeader hread hshort =>
      unfold descriptorAt declaredExtent
      rw [hread]
      dsimp only
      rw [Descriptor.peekTotal?, (Bytes.u32At?_eq_none_iff _ 0).mpr hshort]
    | extent hextent hbank =>
      rw [descriptorAt_of_extent hextent, descriptorWithin,
        Memory.read_eq_error_iff.mpr ⟨hbank, rfl⟩]
    | cutExtent hextent hread hshort =>
      rw [descriptorAt_of_extent hextent, descriptorWithin, hread]
      dsimp only
      rw [Descriptor.parse, Descriptor.peekTotal?, (Bytes.u32At?_eq_none_iff _ 0).mpr hshort]
      rfl
    | badTotalSize hextent hread hpeek hsize =>
      rw [descriptorAt_of_extent hextent, descriptorWithin, hread]
      dsimp only
      rw [Descriptor.parse, Descriptor.peekTotal?, hpeek]
      dsimp only
      rw [if_pos hsize]
      rfl
  · intro h
    cases hextent : declaredExtent m a with
    | error e' =>
      unfold descriptorAt at h
      rw [hextent] at h
      exact Except.error.inj h ▸ declaredExtent_eq_error hextent
    | ok r =>
      rw [descriptorAt_of_extent hextent] at h
      exact descriptorWithin_eq_error hextent h

/-! ## where a descriptor lies -/

/-- the memory that a descriptor takes at an address -/
def extentAt (a : Address) (d : Descriptor) : Range := .span a d.size

theorem extentAt_congr (h : d'.size = d.size) : extentAt a d' = extentAt a d := by
  unfold extentAt
  rw [h]

theorem descriptorAt_reads (h : descriptorAt m a = .ok d) : ∃ header total bs,
    m.read (.span a Descriptor.headerSize) = .ok header
      ∧ Descriptor.peekTotal? header = some total
      ∧ m.read (.span a total.toNat) = .ok bs ∧ Descriptor.parse bs = .ok d := by
  obtain ⟨r, hextent, hwithin⟩ := exists_extent_of_descriptorAt h
  obtain ⟨header, total, hheader, htotal, rfl⟩ := declaredExtent_eq_ok_iff.mp hextent
  obtain ⟨bs, hbs, hparse⟩ := descriptorWithin_eq_ok_iff.mp hwithin
  exact ⟨header, total, bs, hheader, htotal, hbs, hparse⟩

theorem descriptorAt_eq_ok_iff (hm : m.Disjoint) : descriptorAt m a = .ok d ↔
    Descriptor.parse d.bytes = .ok d ∧ m.read (extentAt a d) = .ok d.bytes := by
  constructor
  · intro h
    obtain ⟨header, total, bs, hheader, htotal, hbs, hparse⟩ := descriptorAt_reads h
    obtain ⟨total', htotal', hlo, hhi, hd⟩ := (Descriptor.parse_eq_ok_iff ..).mp hparse
    have hlen := Memory.length_of_read hbs
    rw [Range.size_span] at hlen
    -- the header is the front of the whole, so both declare the same size
    have hfront := Memory.read_take hm hbs (k := Descriptor.headerSize) (by omega)
    rw [hheader, Except.ok.injEq] at hfront
    rw [hfront, Descriptor.peekTotal?_take (Nat.le_refl _), htotal', Option.some.injEq] at htotal
    subst htotal
    have hall : bs.take total'.toNat = bs := List.take_of_length_le (by omega)
    rw [hall] at hd
    subst hd
    have hsize : Descriptor.size ⟨bs⟩ = total'.toNat := by
      show bs.length = _
      omega
    refine ⟨hparse, ?_⟩
    unfold extentAt
    rw [hsize]
    exact hbs
  · rintro ⟨hparse, hread⟩
    obtain ⟨hlo, total, htotal, hlen⟩ := (Descriptor.parse_self_iff d).mp hparse
    unfold extentAt at hread
    have hheader := Memory.read_take hm hread hlo
    have hextent : declaredExtent m a = .ok (.span a d.size) := by
      refine declaredExtent_eq_ok_iff.mpr ⟨_, total, hheader, ?_, by rw [hlen]⟩
      rw [Descriptor.peekTotal?_take (Nat.le_refl _), htotal]
    rw [descriptorAt_of_extent hextent]
    exact descriptorWithin_eq_ok_iff.mpr ⟨d.bytes, hread, hparse⟩

theorem le_top_of_descriptorAt (hm : m.Disjoint) (h : descriptorAt m a = .ok d) :
    a.val + d.size ≤ 0xFFFFFFFFFFFFFFFF := by
  obtain ⟨-, hread⟩ := (descriptorAt_eq_ok_iff hm).mp h
  exact Range.le_of_size_span (Memory.length_of_read hread).symm

theorem size_extentAt (hm : m.Disjoint) (h : descriptorAt m a = .ok d) :
    (extentAt a d).size = d.size := Range.size_span_of_le (le_top_of_descriptorAt hm h)

theorem descriptorAt_frame (hm : m.Disjoint) (h : descriptorAt m a = .ok d) {rs : List Range}
    (hf : Memory.Frame rs m m') (hr : ∀ r ∈ rs, (extentAt a d).overlaps r = false) :
    descriptorAt m' a = .ok d := by
  obtain ⟨hparse, hread⟩ := (descriptorAt_eq_ok_iff hm).mp h
  refine (descriptorAt_eq_ok_iff (hf.disjoint hm)).mpr ⟨hparse, ?_⟩
  rw [hf.read hm hr, hread]

/-- a copy of the extent is the descriptor at its new place -/
theorem descriptorAt_copy (hm : m.Disjoint) (h : descriptorAt m a = .ok d)
    (htop : b.val + d.size ≤ 0xFFFFFFFFFFFFFFFF) (hc : m.copy (extentAt a d) b = .ok m') :
    Memory.Frame [extentAt b d] m m' ∧ descriptorAt m' b = .ok d := by
  obtain ⟨hparse, hread⟩ := (descriptorAt_eq_ok_iff hm).mp h
  have hsize := size_extentAt hm h
  obtain ⟨bs, hbs, hf, hnew⟩ := Memory.copy_spec hm (by rw [hsize]; exact htop) hc
  rw [hread, Except.ok.injEq] at hbs
  rw [hsize] at hf hnew
  refine ⟨hf, (descriptorAt_eq_ok_iff (hf.disjoint hm)).mpr ⟨hparse, ?_⟩⟩
  rw [hbs]
  exact hnew

/-- where a descriptor was read as many bytes can be written, whichever banks overlap -/
theorem exists_write_of_descriptorAt (h : descriptorAt m a = .ok d) {bs : Bytes}
    (hlen : bs.length = d.size) : ∃ m', m.write a bs = .ok m' := by
  obtain ⟨header, total, old, -, -, hold, hparse⟩ := descriptorAt_reads h
  obtain ⟨total', -, -, hhi, rfl⟩ := (Descriptor.parse_eq_ok_iff ..).mp hparse
  have hread := Memory.length_of_read hold
  rw [Range.size_span] at hread
  have hsize : Descriptor.size ⟨old.take total'.toNat⟩ ≤ total.toNat := by
    show (old.take total'.toNat).length ≤ _
    rw [List.length_take]
    omega
  rw [Memory.exists_write_iff, hlen]
  exact Memory.readable_take ((Memory.exists_read_iff ..).mp ⟨old, hold⟩) hsize

theorem descriptorAt_write (hm : m.Disjoint) (h : descriptorAt m a = .ok d)
    (hparse' : Descriptor.parse d'.bytes = .ok d') (hsize : d'.size = d.size) :
    ∃ m', m.write a d'.bytes = .ok m' ∧ Memory.Frame [extentAt a d] m m'
      ∧ descriptorAt m' a = .ok d' := by
  have htop := le_top_of_descriptorAt hm h
  have hspan : Range.span a d'.bytes.length = extentAt a d := extentAt_congr hsize
  obtain ⟨m', hw⟩ := exists_write_of_descriptorAt h hsize
  obtain ⟨hf, hnew⟩ := Memory.write_spec hm (by rw [← hsize] at htop; exact htop) hw
  rw [hspan] at hf
  exact ⟨m', hw, hf, (descriptorAt_eq_ok_iff (hf.disjoint hm)).mpr ⟨hparse', hnew⟩⟩

theorem editDescriptor_of_ok (hm : m.Disjoint) (h : descriptorAt m a = .ok d)
    {f : Descriptor → Except DescriptorError Descriptor} (hf : f d = .ok d')
    (hparse' : Descriptor.parse d'.bytes = .ok d') (hsize : d'.size = d.size) :
    ∃ m', editDescriptor m a f = .ok m' ∧ Memory.Frame [extentAt a d] m m'
      ∧ descriptorAt m' a = .ok d' := by
  obtain ⟨m', hw, hframe, hread⟩ := descriptorAt_write hm h hparse' hsize
  refine ⟨m', ?_, hframe, hread⟩
  unfold editDescriptor
  rw [h]
  dsimp only
  rw [hf]
  dsimp only
  rw [hw]
  rfl

/-- bytes are copied to a place away from the descriptor, and then the descriptor is edited -/
theorem editDescriptor_of_copy {m₁ : Memory} (hm : m.Disjoint) (h : descriptorAt m a = .ok d)
    {src : Range} (htop : b.val + src.size ≤ 0xFFFFFFFFFFFFFFFF)
    (hapart : (Range.span b src.size).overlaps (extentAt a d) = false)
    (hcopy : m.copy src b = .ok m₁) {f : Descriptor → Except DescriptorError Descriptor}
    (hf : f d = .ok d') (hparse' : Descriptor.parse d'.bytes = .ok d') (hsize : d'.size = d.size) :
    ∃ bs m', m.read src = .ok bs ∧ editDescriptor m₁ a f = .ok m'
      ∧ Memory.Frame [.span b src.size, extentAt a d] m m' ∧ descriptorAt m' a = .ok d'
      ∧ m'.read (.span b src.size) = .ok bs := by
  obtain ⟨bs, hread, hframe, hnew⟩ := Memory.copy_spec hm htop hcopy
  have hm₁ := hframe.disjoint hm
  have hstored : descriptorAt m₁ a = .ok d := by
    refine descriptorAt_frame hm h hframe fun r hr => ?_
    rw [List.mem_singleton.mp hr, Range.overlaps_comm]
    exact hapart
  obtain ⟨m', hedit, hframe', hstored'⟩ := editDescriptor_of_ok hm₁ hstored hf hparse' hsize
  refine ⟨bs, m', hread, hedit, ?_, hstored', ?_⟩
  · refine (hframe.mono fun r hr => ?_).trans (hframe'.mono fun r hr => ?_)
    · rw [List.mem_singleton.mp hr]
      exact List.mem_cons_self ..
    · rw [List.mem_singleton.mp hr]
      exact List.mem_cons_of_mem _ (List.mem_singleton.mpr rfl)
  · -- the edit does not reach the copy
    rw [hframe'.read hm₁ fun r hr => by rw [List.mem_singleton.mp hr]; exact hapart]
    exact hnew

end Loader

end ChainBoot
