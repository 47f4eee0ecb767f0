import ChainBoot.Proofs.Image

/-!
# Which images are accepted

The format of an image is stated on its bytes.  A number stands at an offset (`Bytes.field?`), and
from these

* `Headed`              the bytes start with a file header of a class;
* `Declares`            it says this about the program headers;
* `Accepted`            these are not too many, as wide as the class asks, and inside the image;
* `Segment.StandsAt`    a program header stands at an offset.

The readers are exact for these notions, `Table.read?_eq_some_iff` and `Segment.read?_eq_some_iff`.
`Header.scan` is the same parser in words of 64 bits: sums wrap or are checked, every field is
looked up at its own offset in the image, and the list of segments has a fixed capacity.
`Header.scan_eq_parse` says that none of this can be told from the outside.

* `Header.parse_format`   an image is accepted exactly if it is of the format, and then all segments
                          stand in it, whatever follows behind it.
-/

namespace ChainBoot

/-! ## numbers that stand in the bytes -/

namespace Bytes

variable {bs : Bytes} {off n v : Nat}

/-- the number in the `n` bytes at `off`, lowest first, if they are there -/
def field? (bs : Bytes) (off n : Nat) : Option Nat := (bs.window? off n).map value

theorem field?_drop (bs : Bytes) (k off n : Nat) : field? (bs.drop k) off n = bs.field? (k + off) n := by
  simp only [field?, window?_drop]

theorem field?_lt (h : bs.field? off n = some v) : v < Nat.pow 256 n := by
  obtain ⟨w, hw, rfl⟩ := Option.map_eq_some_iff.mp h
  have hlt := w.value_lt
  rwa [length_of_window? hw] at hlt

theorem exists_field? (h : off + n ≤ bs.length) : ∃ v, bs.field? off n = some v :=
  ⟨_, Option.map_eq_some_iff.mpr ⟨_, (window?_eq_some_iff ..).mpr ⟨by omega, rfl⟩, rfl⟩⟩

theorem le_of_field? (h : bs.field? off n = some v) (hn : 0 < n) : off + n ≤ bs.length := by
  obtain ⟨w, hw, -⟩ := Option.map_eq_some_iff.mp h
  have hle := ((window?_eq_some_iff ..).mp hw).1
  omega

theorem field?_append (h : bs.field? off n = some v) (tail : Bytes) :
    field? (bs ++ tail) off n = some v := by
  obtain ⟨w, hw, rfl⟩ := Option.map_eq_some_iff.mp h
  have hle := ((window?_eq_some_iff ..).mp hw).1
  have hsame : window? (bs ++ tail) off n = bs.window? off n :=
    window?_congr fun i hi hlt => List.getElem?_append_left (by omega)
  rw [field?, hsame, hw, Option.map_some]

theorem getD_eq_iff {b : UInt8} (h : off < bs.length) : bs.getD off 0 = b ↔ bs[off]? = some b := by
  rw [List.getD_eq_getElem?_getD, List.getElem?_eq_getElem h, Option.getD_some, Option.some.injEq]

theorem field?_eq_map {α : Type} {read : Nat → α} {toNat : α → Nat}
    (h : ∀ v, v < Nat.pow 256 n → toNat (read v) = v) :
    bs.field? off n = ((bs.window? off n).map fun w => read w.value).map toNat := by
  rw [field?, Option.map_map]
  refine Option.map_congr fun w hw => ?_
  have hlt := w.value_lt
  rw [length_of_window? hw] at hlt
  exact (h w.value hlt).symm

theorem field?_two (bs : Bytes) (off : Nat) : bs.field? off 2 = (bs.u16At? off).map UInt16.toNat :=
  field?_eq_map fun _ hv => UInt16.toNat_ofNat_of_lt' hv

theorem field?_four (bs : Bytes) (off : Nat) : bs.field? off 4 = (bs.u32At? off).map UInt32.toNat :=
  field?_eq_map fun _ hv => UInt32.toNat_ofNat_of_lt' hv

theorem field?_eight (bs : Bytes) (off : Nat) : bs.field? off 8 = (bs.u64At? off).map UInt64.toNat :=
  field?_eq_map fun _ hv => UInt64.toNat_ofNat_of_lt' hv

end Bytes

namespace Elf

/-! ## the format -/

namespace Class

/-- where the file header has the offset, the width and the number of the program headers -/
def tableAt : Class → Nat
  | .elf32 => 28
  | .elf64 => 32

def entrySizeAt : Class → Nat
  | .elf32 => 42
  | .elf64 => 54

def countAt : Class → Nat
  | .elf32 => 44
  | .elf64 => 56

/-- where a program header has its flags, its address and its size -/
def flagsAt : Class → Nat
  | .elf32 => 24
  | .elf64 => 4

def paddrAt : Class → Nat
  | .elf32 => 12
  | .elf64 => 24

def memszAt : Class → Nat
  | .elf32 => 20
  | .elf64 => 40

end Class

/-- the bytes start with a file header of the class -/
structure Headed (bs : Bytes) (c : Class) : Prop where
  magic : bs.take 4 = [0x7F, 0x45, 0x4C, 0x46]
  ident : bs[4]? = some c.ident
  encoding : bs[5]? = some 1
  header : c.headerSize ≤ bs.length

/-- the file header says this about the entry point and the program headers -/
structure Declares (bs : Bytes) (c : Class) (t : Table) : Prop extends Headed bs c where
  entry : bs.field? 24 c.wordSize = some t.entry.toNat
  offset : bs.field? c.tableAt c.wordSize = some t.offset
  entrySize : bs.field? c.entrySizeAt 2 = some t.entrySize
  count : bs.field? c.countAt 2 = some t.count

/-- the bytes are an image: the program headers are few, of the width of the class, and inside -/
structure Accepted (bs : Bytes) (c : Class) (t : Table) : Prop extends Declares bs c t where
  few : t.count ≤ 64
  width : t.count ≠ 0 → t.entrySize = c.entrySize
  room : t.offset + t.count * t.entrySize ≤ bs.length

/-- the program header at an offset is that of the segment -/
structure Segment.StandsAt (s : Segment) (c : Class) (bs : Bytes) (off : Nat) : Prop where
  kind : bs.field? off 4 = some s.kind.toNat
  flags : bs.field? (off + c.flagsAt) 4 = some s.flags.bits.toNat
  paddr : bs.field? (off + c.paddrAt) c.wordSize = some s.paddr.val
  memsz : bs.field? (off + c.memszAt) c.wordSize = some s.memsz.toNat

variable {bs : Bytes} {c : Class} {t : Table}

/-! ## the file header -/

theorem Table.read?_eq_some_iff : Table.read? c bs = some t ↔
    bs.field? 24 c.wordSize = some t.entry.toNat ∧ bs.field? c.tableAt c.wordSize = some t.offset
      ∧ bs.field? c.entrySizeAt 2 = some t.entrySize ∧ bs.field? c.countAt 2 = some t.count := by
  obtain ⟨entry, offset, entrySize, count⟩ := t
  -- the two layouts have the same fields in the same order
  cases c
  all_goals
    simp only [Table.read?, Class.wordSize, Class.tableAt, Class.entrySizeAt, Class.countAt,
      Bytes.field?_two, Bytes.field?_four, Bytes.field?_eight, Option.bind_eq_bind,
      Option.bind_eq_some_iff, Option.pure_def, Option.some.injEq, Option.map_eq_some_iff,
      Table.mk.injEq]
    constructor
    · rintro ⟨e, he, o, ho, w, hw, n, hn, rfl, rfl, rfl, rfl⟩
      exact ⟨⟨e, he, rfl⟩, ⟨o, ho, rfl⟩, ⟨w, hw, rfl⟩, n, hn, rfl⟩
    · rintro ⟨⟨e, he, hentry⟩, ⟨o, ho, rfl⟩, ⟨w, hw, rfl⟩, n, hn, rfl⟩
      exact ⟨e, he, o, ho, w, hw, n, hn, UInt64.toNat.inj hentry, rfl, rfl, rfl⟩

theorem Class.pow_wordSize_le (c : Class) : Nat.pow 256 c.wordSize ≤ 0x10000000000000000 := by
  cases c <;> decide

theorem Headed.exists_declares (h : Headed bs c) : ∃ t, Declares bs c t := by
  have hheader := h.header
  have hend : 24 + c.wordSize ≤ c.headerSize ∧ c.tableAt + c.wordSize ≤ c.headerSize
      ∧ c.entrySizeAt + 2 ≤ c.headerSize ∧ c.countAt + 2 ≤ c.headerSize := by
    cases c <;> decide
  obtain ⟨e, he⟩ := Bytes.exists_field? (Nat.le_trans hend.1 hheader)
  obtain ⟨o, ho⟩ := Bytes.exists_field? (Nat.le_trans hend.2.1 hheader)
  obtain ⟨w, hw⟩ := Bytes.exists_field? (Nat.le_trans hend.2.2.1 hheader)
  obtain ⟨n, hn⟩ := Bytes.exists_field? (Nat.le_trans hend.2.2.2 hheader)
  have hentry : (UInt64.ofNat e).toNat = e :=
    UInt64.toNat_ofNat_of_lt' (Nat.lt_of_lt_of_le (Bytes.field?_lt he) c.pow_wordSize_le)
  exact ⟨⟨.ofNat e, o, w, n⟩, h, by rw [he, hentry], ho, hw, hn⟩

/-! ## program headers -/

namespace Segment

variable {s s' : Segment} {off : Nat}

theorem standsAt_iff : s.StandsAt c bs off ↔ bs.field? off 4 = some s.kind.toNat
    ∧ bs.field? (off + c.flagsAt) 4 = some s.flags.bits.toNat
    ∧ bs.field? (off + c.paddrAt) c.wordSize = some s.paddr.val
    ∧ bs.field? (off + c.memszAt) c.wordSize = some s.memsz.toNat :=
  ⟨fun ⟨hk, hf, hp, hm⟩ => ⟨hk, hf, hp, hm⟩, fun ⟨hk, hf, hp, hm⟩ => ⟨hk, hf, hp, hm⟩⟩

theorem read?_eq_some_iff : Segment.read? c bs = some s ↔ s.StandsAt c bs 0 := by
  obtain ⟨kind, paddr, memsz, ⟨flags⟩⟩ := s
  rw [standsAt_iff]
  cases c
  all_goals
    simp only [Segment.read?, Class.wordSize, Class.flagsAt, Class.paddrAt, Class.memszAt,
      Nat.zero_add, Bytes.field?_four, Bytes.field?_eight, Option.bind_eq_bind,
      Option.bind_eq_some_iff, Option.pure_def, Option.some.injEq, Option.map_eq_some_iff,
      Segment.mk.injEq, Flags.mk.injEq]
    constructor
  · rintro ⟨k, hk, p, hp, m, hm, f, hf, rfl, rfl, rfl, rfl⟩
    exact ⟨⟨k, hk, rfl⟩, ⟨f, hf, rfl⟩, ⟨p, hp, rfl⟩, m, hm, rfl⟩
  · rintro ⟨⟨k, hk, hkind⟩, ⟨f, hf, hflags⟩, ⟨p, hp, hpaddr⟩, m, hm, hmemsz⟩
    exact ⟨k, hk, p, hp, m, hm, f, hf, UInt32.toNat.inj hkind, Fin.ext hpaddr,
      UInt64.toNat.inj hmemsz, UInt32.toNat.inj hflags⟩
  · rintro ⟨k, hk, f, hf, p, hp, m, hm, rfl, rfl, rfl, rfl⟩
    exact ⟨⟨k, hk, rfl⟩, ⟨f, hf, rfl⟩, ⟨p, hp, rfl⟩, m, hm, rfl⟩
  · rintro ⟨⟨k, hk, hkind⟩, ⟨f, hf, hflags⟩, ⟨p, hp, hpaddr⟩, m, hm, hmemsz⟩
    exact ⟨k, hk, f, hf, p, hp, m, hm, UInt32.toNat.inj hkind, Fin.ext hpaddr,
      UInt64.toNat.inj hmemsz, UInt32.toNat.inj hflags⟩

theorem standsAt_drop (k : Nat) :
    s.StandsAt c (bs.drop k) off ↔ s.StandsAt c bs (k + off) := by
  simp only [standsAt_iff, Bytes.field?_drop, Nat.add_assoc]

theorem StandsAt.append (h : s.StandsAt c bs off) (tail : Bytes) : s.StandsAt c (bs ++ tail) off where
  kind := Bytes.field?_append h.kind tail
  flags := Bytes.field?_append h.flags tail
  paddr := Bytes.field?_append h.paddr tail
  memsz := Bytes.field?_append h.memsz tail

theorem StandsAt.unique (h : s.StandsAt c bs off) (h' : s'.StandsAt c bs off) : s = s' := by
  rw [← Nat.add_zero off, ← standsAt_drop, ← read?_eq_some_iff] at h h'
  exact Option.some.inj (h.symm.trans h')

theorem exists_standsAt (h : off + c.entrySize ≤ bs.length) :
    ∃ s : Segment, s.StandsAt c bs off := by
  have hend : 4 ≤ c.entrySize ∧ c.flagsAt + 4 ≤ c.entrySize
      ∧ c.paddrAt + c.wordSize ≤ c.entrySize ∧ c.memszAt + c.wordSize ≤ c.entrySize := by
    cases c <;> decide
  obtain ⟨k, hk⟩ : ∃ k, bs.field? off 4 = some k := Bytes.exists_field? (by omega)
  obtain ⟨f, hf⟩ : ∃ f, bs.field? (off + c.flagsAt) 4 = some f := Bytes.exists_field? (by omega)
  obtain ⟨p, hp⟩ : ∃ p, bs.field? (off + c.paddrAt) c.wordSize = some p :=
    Bytes.exists_field? (by omega)
  obtain ⟨m, hm⟩ : ∃ m, bs.field? (off + c.memszAt) c.wordSize = some m :=
    Bytes.exists_field? (by omega)
  have hplt := Nat.lt_of_lt_of_le (Bytes.field?_lt hp) c.pow_wordSize_le
  have hmlt := Nat.lt_of_lt_of_le (Bytes.field?_lt hm) c.pow_wordSize_le
  refine ⟨⟨.ofNat k, ⟨p, hplt⟩, .ofNat m, ⟨.ofNat f⟩⟩, ?_, ?_, hp, ?_⟩
  · rw [hk, UInt32.toNat_ofNat_of_lt' (Bytes.field?_lt hk)]
  · rw [hf, UInt32.toNat_ofNat_of_lt' (Bytes.field?_lt hf)]
  · rw [hm, UInt64.toNat_ofNat_of_lt' hmlt]

end Segment

/-- the segments of a table: number `i` stands `i` program headers behind the first one -/
theorem segments?_spec {n : Nat} (h : n * c.entrySize ≤ bs.length) :
    ∃ ss, segments? c n bs = some ss ∧ ss.length = n
      ∧ ∀ i (s : Segment), ss[i]? = some s → s.StandsAt c bs (i * c.entrySize) := by
  induction n generalizing bs with
  | zero => exact ⟨[], rfl, rfl, fun i s hs => by simp at hs⟩
  | succ n ih =>
    rw [Nat.succ_mul] at h
    obtain ⟨s, hs⟩ : ∃ s : Segment, s.StandsAt c bs 0 := Segment.exists_standsAt (by omega)
    have hrest : n * c.entrySize ≤ (bs.drop c.entrySize).length := by
      rw [List.length_drop]
      omega
    obtain ⟨ss, hss, hlen, hstand⟩ := ih hrest
    refine ⟨s :: ss, ?_, by rw [List.length_cons, hlen], ?_⟩
    · rw [segments?, Segment.read?_eq_some_iff.mpr hs, hss]
      rfl
    · intro i u hu
      cases i with
      | zero =>
        cases hu
        rwa [Nat.zero_mul]
      | succ i =>
        have hu := (Segment.standsAt_drop _).mp (hstand i u hu)
        rwa [Nat.succ_mul, Nat.add_comm]

/-! ## the checks of the parser -/

theorem Class.ofIdent?_eq_some_iff {b : UInt8} : Class.ofIdent? b = some c ↔ b = c.ident := by
  constructor
  · intro h
    unfold Class.ofIdent? at h
    split at h
    · cases h; rfl
    · cases h; rfl
    · cases h
  · rintro rfl
    exact Class.ofIdent?_ident c

namespace Header

/-- the checks of the file header: the class, and what is said about the program headers -/
def front (bs : Bytes) : Except Error (Class × Table) :=
  if bs.length < identSize then .error .tooShort
  else if bs.take 4 ≠ magic then .error .badMagic
  else match Class.ofIdent? (bs.getD 4 0) with
    | none => .error (.unsupportedClass (bs.getD 4 0))
    | some c =>
      if bs.getD 5 0 ≠ littleEndian then .error (.unsupportedEncoding (bs.getD 5 0))
      else if bs.length < c.headerSize then .error .tooShort
      else match Table.read? c bs with
        | none => .error .outOfBounds
        | some t => .ok (c, t)

/-- the checks of the table, and the segments in it -/
def load (bs : Bytes) (c : Class) (t : Table) : Except Error Header :=
  if maxSegments < t.count then .error (.tooManySegments t.count)
  else if 0 < t.count ∧ t.entrySize ≠ c.entrySize then
    .error (.badEntrySize c.entrySize t.entrySize)
  else if bs.length < t.offset + t.count * t.entrySize then .error .outOfBounds
  else match segments? c t.count (bs.drop t.offset) with
    | none => .error .outOfBounds
    | some ss => .ok ⟨c, t.entry, ss⟩

theorem parse_eq (bs : Bytes) : parse bs = match front bs with
    | .error e => .error e
    | .ok (c, t) => load bs c t := by
  unfold parse front
  by_cases hlen : bs.length < identSize
  · rw [if_pos hlen, if_pos hlen]
  rw [if_neg hlen, if_neg hlen]
  by_cases hmagic : bs.take 4 ≠ magic
  · rw [if_pos hmagic, if_pos hmagic]
  rw [if_neg hmagic, if_neg hmagic]
  cases Class.ofIdent? (bs.getD 4 0) with
  | none => rfl
  | some c =>
    dsimp only
    by_cases hencoding : bs.getD 5 0 ≠ littleEndian
    · rw [if_pos hencoding, if_pos hencoding]
    rw [if_neg hencoding, if_neg hencoding]
    by_cases hheader : bs.length < c.headerSize
    · rw [if_pos hheader, if_pos hheader]
    rw [if_neg hheader, if_neg hheader]
    cases Table.read? c bs with
    | none => rfl
    | some t => rfl

theorem front_eq_ok_iff : front bs = .ok (c, t) ↔ Declares bs c t := by
  have hident : identSize ≤ c.headerSize := by cases c <;> decide
  constructor
  · intro h
    unfold front at h
    split at h
    · cases h
    rename_i hlen
    rw [identSize] at hlen
    split at h
    · cases h
    rename_i hmagic
    split at h
    · cases h
    rename_i c' hclass
    split at h
    · cases h
    rename_i hencoding
    split at h
    · cases h
    rename_i hheader
    split at h
    · cases h
    rename_i t' htable
    cases h
    obtain ⟨hentry, hoffset, hwidth, hcount⟩ := Table.read?_eq_some_iff.mp htable
    rw [Class.ofIdent?_eq_some_iff, Bytes.getD_eq_iff (by omega)] at hclass
    rw [ne_eq, Classical.not_not, Bytes.getD_eq_iff (by omega)] at hencoding
    exact ⟨⟨Classical.not_not.mp hmagic, hclass, hencoding, Nat.not_lt.mp hheader⟩, hentry, hoffset,
      hwidth, hcount⟩
  · rintro ⟨⟨hmagic, hclass, hencoding, hheader⟩, hentry, hoffset, hwidth, hcount⟩
    rw [identSize] at hident
    rw [← Bytes.getD_eq_iff (by omega)] at hclass hencoding
    have hmagic : bs.take 4 = magic := hmagic
    have hencoding : bs.getD 5 0 = littleEndian := hencoding
    unfold front
    rw [identSize, if_neg (by omega), if_neg (not_not_intro hmagic), hclass, Class.ofIdent?_ident]
    dsimp only
    rw [if_neg (not_not_intro hencoding), if_neg (by omega),
      Table.read?_eq_some_iff.mpr ⟨hentry, hoffset, hwidth, hcount⟩]

/-- an image is what passes the checks of the table -/
theorem accepted_iff (h : Declares bs c t) : Accepted bs c t ↔ ¬ maxSegments < t.count
    ∧ ¬ (0 < t.count ∧ t.entrySize ≠ c.entrySize) ∧ ¬ bs.length < t.offset + t.count * t.entrySize := by
  constructor
  · intro ha
    exact ⟨Nat.not_lt.mpr ha.few, fun hw => hw.2 (ha.width (Nat.ne_of_gt hw.1)), Nat.not_lt.mpr ha.room⟩
  · rintro ⟨hfew, hwidth, hroom⟩
    refine ⟨h, Nat.not_lt.mp hfew, fun hne => ?_, Nat.not_lt.mp hroom⟩
    exact Classical.not_not.mp fun hother => hwidth ⟨Nat.pos_of_ne_zero hne, hother⟩

theorem load_of_accepted (h : Accepted bs c t) : ∃ ss, load bs c t = .ok ⟨c, t.entry, ss⟩
    ∧ ss.length = t.count
    ∧ ∀ i (s : Segment), ss[i]? = some s → s.StandsAt c bs (t.offset + i * t.entrySize) := by
  have hroom := h.room
  have hwidth : t.count * t.entrySize = t.count * c.entrySize := by
    rcases Nat.eq_zero_or_pos t.count with hzero | hpos
    · rw [hzero, Nat.zero_mul, Nat.zero_mul]
    · rw [h.width (Nat.ne_of_gt hpos)]
  have htable : t.count * c.entrySize ≤ (bs.drop t.offset).length := by
    rw [List.length_drop]
    omega
  obtain ⟨ss, hss, hlen, hstand⟩ := segments?_spec htable
  refine ⟨ss, ?_, hlen, fun i s hs => ?_⟩
  · obtain ⟨hfew, hwide, hroom⟩ := (accepted_iff h.toDeclares).mp h
    rw [load, if_neg hfew, if_neg hwide, if_neg hroom, hss]
  · have hi : i < ss.length := (List.getElem?_eq_some_iff.mp hs).1
    rw [h.width (by omega)]
    exact (Segment.standsAt_drop _).mp (hstand i s hs)

theorem accepted_of_load {h : Header} (hdeclares : Declares bs c t) (hload : load bs c t = .ok h) :
    Accepted bs c t := by
  unfold load at hload
  split at hload
  · cases hload
  rename_i hfew
  split at hload
  · cases hload
  rename_i hwidth
  split at hload
  · cases hload
  rename_i hroom
  exact (accepted_iff hdeclares).mpr ⟨hfew, hwidth, hroom⟩

theorem parse_of_accepted (h : Accepted bs c t) : parse bs = load bs c t := by
  rw [parse_eq, front_eq_ok_iff.mpr h.toDeclares]

theorem accepted_of_parse {h : Header} (hparse : parse bs = .ok h) : ∃ c t, Accepted bs c t := by
  rw [parse_eq] at hparse
  split at hparse
  · cases hparse
  · rename_i c t hfront
    exact ⟨c, t, accepted_of_load (front_eq_ok_iff.mp hfront) hparse⟩

end Header

/-! ## bytes behind an image -/

theorem Accepted.append (h : Accepted bs c t) (tail : Bytes) : Accepted (bs ++ tail) c t := by
  have hheader := h.header
  have hroom := h.room
  have hlen : (bs ++ tail).length = bs.length + tail.length := List.length_append
  have hfour : 6 ≤ bs.length := by cases c <;> exact Nat.le_trans (by decide) hheader
  refine ⟨⟨⟨?_, ?_, ?_, by omega⟩, Bytes.field?_append h.entry tail,
    Bytes.field?_append h.offset tail, Bytes.field?_append h.entrySize tail,
    Bytes.field?_append h.count tail⟩, h.few, h.width, by omega⟩
  · rw [List.take_append_of_le_length (by omega), h.magic]
  · rw [List.getElem?_append_left (by omega), h.ident]
  · rw [List.getElem?_append_left (by omega), h.encoding]

theorem Header.load_append (h : Accepted bs c t) (tail : Bytes) :
    load (bs ++ tail) c t = load bs c t := by
  obtain ⟨ss, hload, hlen, hstand⟩ := load_of_accepted h
  obtain ⟨ss', hload', hlen', hstand'⟩ := load_of_accepted (h.append tail)
  have hsame : ss' = ss := by
    refine List.ext_getElem (by rw [hlen, hlen']) fun i hi hi' => ?_
    have hs := hstand i _ (List.getElem?_eq_getElem hi')
    exact (hstand' i _ (List.getElem?_eq_getElem hi)).unique (hs.append tail)
  rw [hload, hload', hsame]

/-! ## the same in words -/

/-- a sum of words, if it does not wrap -/
def sum? (a b : UInt64) : Option UInt64 :=
  if a.toNat + b.toNat < 0x10000000000000000 then some (a + b) else none

/-- a product of words, if it does not wrap -/
def product? (a b : UInt64) : Option UInt64 :=
  if a.toNat * b.toNat < 0x10000000000000000 then some (a * b) else none

theorem toNat_word {n : Nat} (h : n < 0x10000000000000000) : (UInt64.ofNat n).toNat = n :=
  UInt64.toNat_ofNat_of_lt' h

theorem sum?_eq_some {a b : UInt64} (h : a.toNat + b.toNat < 0x10000000000000000) :
    ∃ s, sum? a b = some s ∧ s.toNat = a.toNat + b.toNat :=
  ⟨a + b, if_pos h, (UInt64.toNat_add a b).trans (Nat.mod_eq_of_lt h)⟩

theorem product?_eq_some {a b : UInt64} (h : a.toNat * b.toNat < 0x10000000000000000) :
    ∃ p, product? a b = some p ∧ p.toNat = a.toNat * b.toNat :=
  ⟨a * b, if_pos h, (UInt64.toNat_mul a b).trans (Nat.mod_eq_of_lt h)⟩

/-- the end of the table, if neither its size nor the sum wraps -/
def tableEnd? (t : Table) : Option UInt64 :=
  (product? (.ofNat t.entrySize) (.ofNat t.count)).bind (sum? (.ofNat t.offset))

/-- the number in the `n` bytes from `off` on, if these end, without wrapping, inside the bytes -/
def numberAt? (bs : Bytes) (off : UInt64) (n : Nat) : Option Nat :=
  match sum? off (.ofNat n) with
  | none => none
  | some stop =>
    if stop.toNat ≤ bs.length then some (Bytes.value (bs.slice off.toNat stop.toNat)) else none

/-- the program header at an offset of the image, field by field -/
def Segment.scan? (c : Class) (bs : Bytes) (off : UInt64) : Option Segment := do
  let kind ← numberAt? bs off 4
  let flags ← numberAt? bs (off + .ofNat c.flagsAt) 4
  let paddr ← numberAt? bs (off + .ofNat c.paddrAt) c.wordSize
  let memsz ← numberAt? bs (off + .ofNat c.memszAt) c.wordSize
  return ⟨.ofNat kind, .ofUInt64 (.ofNat paddr), .ofNat memsz, ⟨.ofNat flags⟩⟩

namespace Header

/-- `n` program headers from number `i` on, behind the segments kept so far; a list that is full
takes no more -/
def scanFrom (bs : Bytes) (c : Class) (t : Table) :
    (n : Nat) → (i : UInt64) → (kept : List Segment) → Except Error (List Segment)
  | 0, _, kept => .ok kept
  | n + 1, i, kept =>
    match Segment.scan? c bs (.ofNat t.offset + i * .ofNat t.entrySize) with
    | none => .error .outOfBounds
    | some s =>
      if kept.length < maxSegments then scanFrom bs c t n (i + 1) (kept ++ [s])
      else .error (.tooManySegments t.count)

/-- the checks of the table with a checked end, and the segments one by one -/
def scanTable (bs : Bytes) (c : Class) (t : Table) : Except Error Header :=
  if maxSegments < t.count then .error (.tooManySegments t.count)
  else if 0 < t.count ∧ t.entrySize ≠ c.entrySize then
    .error (.badEntrySize c.entrySize t.entrySize)
  else match tableEnd? t with
    | none => .error .outOfBounds
    | some stop =>
      if bs.length < stop.toNat then .error .outOfBounds
      else (scanFrom bs c t t.count 0 []).map fun ss => ⟨c, t.entry, ss⟩

/-- the parser in words -/
def scan (bs : Bytes) : Except Error Header :=
  match front bs with
  | .error e => .error e
  | .ok (c, t) => scanTable bs c t

end Header

/-- the end of the table is exact, or past all words -/
theorem tableEnd?_spec (h : Declares bs c t) :
    (t.offset + t.count * t.entrySize < 0x10000000000000000
      → ∃ stop, tableEnd? t = some stop ∧ stop.toNat = t.offset + t.count * t.entrySize)
    ∧ (0x10000000000000000 ≤ t.offset + t.count * t.entrySize → tableEnd? t = none) := by
  have hwidth : t.entrySize < 65536 := Bytes.field?_lt h.entrySize
  have hcount : t.count < 65536 := Bytes.field?_lt h.count
  have hmul : t.entrySize * t.count < 65536 * 65536 := Nat.mul_lt_mul'' hwidth hcount
  have hw : (UInt64.ofNat t.entrySize).toNat = t.entrySize := toNat_word (by omega)
  have hn : (UInt64.ofNat t.count).toNat = t.count := toNat_word (by omega)
  have ho : (UInt64.ofNat t.offset).toNat = t.offset :=
    toNat_word (Nat.lt_of_lt_of_le (Bytes.field?_lt h.offset) c.pow_wordSize_le)
  obtain ⟨size, hsize, hsizeVal⟩ := product?_eq_some (a := .ofNat t.entrySize) (b := .ofNat t.count)
    (by rw [hw, hn]; omega)
  rw [hw, hn, Nat.mul_comm] at hsizeVal
  rw [tableEnd?, hsize, Option.bind_some]
  constructor
  · intro hlt
    have hsum := sum?_eq_some (a := .ofNat t.offset) (b := size) (by rw [ho, hsizeVal]; exact hlt)
    rwa [ho, hsizeVal] at hsum
  · intro hle
    exact if_neg (by rw [ho, hsizeVal]; omega)

section
variable (hlen : bs.length < 0x10000000000000000)
include hlen

theorem numberAt?_of_field? {off : UInt64} {k n v : Nat} (hn : 0 < n)
    (h : bs.field? (off.toNat + k) n = some v) : numberAt? bs (off + .ofNat k) n = some v := by
  have hin := Bytes.le_of_field? h hn
  have hk : (UInt64.ofNat k).toNat = k := toNat_word (by omega)
  have hn' : (UInt64.ofNat n).toNat = n := toNat_word (by omega)
  have hoff : (off + UInt64.ofNat k).toNat = off.toNat + k := by
    rw [UInt64.toNat_add, hk, Nat.mod_eq_of_lt (by omega)]
  obtain ⟨stop, hstop, hend⟩ := sum?_eq_some (a := off + UInt64.ofNat k) (b := .ofNat n)
    (by rw [hoff, hn']; omega)
  rw [hoff, hn'] at hend
  obtain ⟨w, hw, rfl⟩ := Option.map_eq_some_iff.mp h
  unfold numberAt?
  rw [hstop]
  dsimp only
  rw [if_pos (by omega), hoff, hend, Bytes.slice, Nat.add_sub_cancel_left,
    ((Bytes.window?_eq_some_iff ..).mp hw).2]

theorem Segment.scan?_of_standsAt {s : Segment} {off : UInt64}
    (h : s.StandsAt c bs off.toNat) : Segment.scan? c bs off = some s := by
  have hword : 0 < c.wordSize := by cases c <;> decide
  have hkind := numberAt?_of_field? hlen (k := 0) (by decide) h.kind
  have hflags := numberAt?_of_field? hlen (by decide) h.flags
  have hpaddr := numberAt?_of_field? hlen hword h.paddr
  have hmemsz := numberAt?_of_field? hlen hword h.memsz
  have hzero : off + UInt64.ofNat 0 = off := UInt64.add_zero off
  rw [hzero] at hkind
  have hplace : Address.ofUInt64 (UInt64.ofNat s.paddr.val) = s.paddr := Address.ofUInt64_toUInt64 _
  simp only [Segment.scan?, hkind, hflags, hpaddr, hmemsz, Option.bind_eq_bind, Option.bind_some,
    Option.pure_def, UInt32.ofNat_toNat, UInt64.ofNat_toNat, hplace]

theorem Header.scanFrom_of_standsAt (haccepted : Accepted bs c t) {kept rest : List Segment}
    (hcount : kept.length + rest.length = t.count)
    (hstand : ∀ j (s : Segment), rest[j]? = some s →
      s.StandsAt c bs (t.offset + (kept.length + j) * t.entrySize)) :
    scanFrom bs c t rest.length (.ofNat kept.length) kept = .ok (kept ++ rest) := by
  induction rest generalizing kept with
  | nil => rw [List.append_nil]; rfl
  | cons s rest ih =>
    have hfew := haccepted.few
    have hroom := haccepted.room
    rw [List.length_cons] at hcount
    have hin : kept.length * t.entrySize + t.entrySize ≤ t.count * t.entrySize := by
      rw [← Nat.succ_mul]
      exact Nat.mul_le_mul_right _ (by omega)
    have hi : (UInt64.ofNat kept.length).toNat = kept.length := toNat_word (by omega)
    have hw : (UInt64.ofNat t.entrySize).toNat = t.entrySize := toNat_word (by omega)
    have ho : (UInt64.ofNat t.offset).toNat = t.offset := toNat_word (by omega)
    have hplace : (UInt64.ofNat t.offset + .ofNat kept.length * .ofNat t.entrySize).toNat
        = t.offset + kept.length * t.entrySize := by
      rw [UInt64.toNat_add, UInt64.toNat_mul, hi, hw, ho]
      omega
    have hs : s.StandsAt c bs (UInt64.ofNat t.offset + .ofNat kept.length * .ofNat t.entrySize).toNat := by
      rw [hplace]
      exact hstand 0 s rfl
    have hspace : kept.length < maxSegments := Nat.lt_of_lt_of_le (by omega) hfew
    have hnext : UInt64.ofNat kept.length + 1 = .ofNat (kept ++ [s]).length := by
      rw [List.length_append]
      apply UInt64.toNat.inj
      simp [UInt64.toNat_add]
    rw [List.length_cons, scanFrom, Segment.scan?_of_standsAt hlen hs]
    dsimp only
    rw [if_pos hspace, hnext, ih (by simp; omega), List.append_assoc]
    · rfl
    · intro j u hu
      have hu := hstand (j + 1) u hu
      rwa [List.length_append, List.length_singleton, Nat.add_assoc, Nat.add_comm 1 j]

/-- a table whose end wraps is out of bounds, and all others are read in the same way -/
theorem Header.scanTable_eq_load (hdeclares : Declares bs c t) : scanTable bs c t = load bs c t := by
  obtain ⟨hexact, hwraps⟩ := tableEnd?_spec hdeclares
  by_cases hfew : maxSegments < t.count
  · rw [scanTable, load, if_pos hfew, if_pos hfew]
  by_cases hwidth : 0 < t.count ∧ t.entrySize ≠ c.entrySize
  · rw [scanTable, load, if_neg hfew, if_pos hwidth, if_neg hfew, if_pos hwidth]
  by_cases hroom : bs.length < t.offset + t.count * t.entrySize
  · rw [scanTable, load, if_neg hfew, if_neg hwidth, if_neg hfew, if_neg hwidth, if_pos hroom]
    by_cases hlt : t.offset + t.count * t.entrySize < 0x10000000000000000
    · obtain ⟨stop, hstop, hend⟩ := hexact hlt
      rw [hstop]
      exact if_pos (hend ▸ hroom)
    · rw [hwraps (Nat.not_lt.mp hlt)]
  · have haccepted := (accepted_iff hdeclares).mpr ⟨hfew, hwidth, hroom⟩
    obtain ⟨ss, hload, hcount, hstand⟩ := load_of_accepted haccepted
    obtain ⟨stop, hstop, hend⟩ := hexact (by omega)
    have hscan : scanFrom bs c t ss.length 0 [] = .ok ss := by
      show scanFrom bs c t ss.length (.ofNat ([] : List Segment).length) [] = .ok ([] ++ ss)
      exact scanFrom_of_standsAt hlen haccepted (by simpa using hcount) (by simpa using hstand)
    rw [hload, scanTable, if_neg hfew, if_neg hwidth, hstop]
    dsimp only
    rw [if_neg (hend ▸ hroom), ← hcount, hscan]
    rfl

/-- **The parser in words gives the same answers.** -/
theorem Header.scan_eq_parse : scan bs = parse bs := by
  rw [scan, parse_eq]
  cases hfront : front bs with
  | error e => rfl
  | ok p => exact scanTable_eq_load hlen (front_eq_ok_iff.mp hfront)

end

/-- **An image is accepted exactly if it is of the format.**  Its segments are the program headers
that stand in it, in their order, and no bytes behind it matter.  The parser in words does not miss
a field, run out of room, or take a sum that wraps for one that is inside. -/
theorem Header.parse_format (bs : Bytes) :
    ((∃ h, parse bs = .ok h) ↔ ∃ c t, Accepted bs c t)
    ∧ (∀ c, Headed bs c → ∃ t, Declares bs c t)
    ∧ (∀ c t, Accepted bs c t → ∃ h, parse bs = .ok h ∧ h.cls = c ∧ h.entry = t.entry
        ∧ h.segments.length = t.count
        ∧ (∀ i (s : Segment), h.segments[i]? = some s → s.StandsAt c bs (t.offset + i * t.entrySize))
        ∧ ∀ tail, parse (bs ++ tail) = .ok h)
    ∧ (bs.length < 0x10000000000000000 → scan bs = parse bs) := by
  have hparse : ∀ c t, Accepted bs c t → ∃ ss, (∀ tail, parse (bs ++ tail) = .ok ⟨c, t.entry, ss⟩)
      ∧ ss.length = t.count
      ∧ ∀ i (s : Segment), ss[i]? = some s → s.StandsAt c bs (t.offset + i * t.entrySize) := by
    intro c t h
    obtain ⟨ss, hload, hcount, hstand⟩ := load_of_accepted h
    exact ⟨ss, fun tail => by rw [parse_of_accepted (h.append tail), load_append h, hload], hcount,
      hstand⟩
  refine ⟨⟨fun ⟨h, hh⟩ => accepted_of_parse hh, fun ⟨c, t, h⟩ => ?_⟩, fun c h => h.exists_declares,
    fun c t h => ?_, fun hlen => scan_eq_parse hlen⟩
  · obtain ⟨ss, hss, -⟩ := hparse c t h
    exact ⟨_, List.append_nil bs ▸ hss []⟩
  · obtain ⟨ss, hss, hcount, hstand⟩ := hparse c t h
    exact ⟨_, List.append_nil bs ▸ hss [], rfl, rfl, hcount, hstand, hss⟩

/-- the program header of this image would start so far up that its end wraps to the first byte -/
def wrappingImage : Bytes :=
  let bytes := (Header.encode? ⟨.elf64, 0, [⟨1, .top, 1, ⟨7⟩⟩]⟩).getD []
  bytes.overwrite 32 (Bytes.le 8 0xFFFFFFFFFFFFFFC8)

theorem sampleImage_format :
    (∃ h, Header.parse (sampleBytes ++ [1, 2, 3]) = .ok h ∧ h.segments.length = 3
      ∧ Header.scan sampleBytes = .ok h)
    ∧ (Header.scan wrappingImage).toOption = none ∧ ∀ c t, ¬ Accepted wrappingImage c t := by
  have haccepted : Accepted sampleBytes .elf32 ⟨0x400000, 52, 32, 3⟩ := by
    refine ⟨⟨⟨?_, ?_, ?_, ?_⟩, ?_, ?_, ?_, ?_⟩, ?_, fun _ => rfl, ?_⟩ <;> decide +kernel
  have hwrapping : (Header.parse wrappingImage).toOption = none := by decide +kernel
  obtain ⟨h, hparse, -, -, hcount, -, htail⟩ :=
    (Header.parse_format sampleBytes).2.2.1 _ _ haccepted
  have hscan := (Header.parse_format sampleBytes).2.2.2 (by decide +kernel)
  refine ⟨⟨h, htail _, hcount, hscan.trans hparse⟩, ?_, fun c t ht => ?_⟩
  · rw [(Header.parse_format wrappingImage).2.2.2 (by decide +kernel), hwrapping]
  · obtain ⟨h, hh⟩ := (Header.parse_format wrappingImage).1.mpr ⟨c, t, ht⟩
    rw [hh] at hwrapping
    cases hwrapping

end Elf

end ChainBoot
