import ChainBoot.Elf.Encode
import ChainBoot.Proofs.Bytes
import Mathlib.Data.Option.NAry

/-!
# Images are read as they were written

An image is a file header with the program headers right behind it, one after the other.  Each
writer gives up exactly where a value does not fit its field (`narrow?_eq_none_iff`,
`Class.word?_eq_none_iff`, and from them one lemma for each record), and each reader takes back what
its writer laid out, whatever bytes follow:

* `Table.read?_fileHeader`    entry point, place and number of the program headers;
* `Segment.read?_encode`      one program header, in the layout of its class;
* `segments?_table`           any number of program headers.

`Header.parse_of_table` says which checks are left once the file header is read, and
`Header.encode?_parse` what follows for whole images: which ones are refused, which are read back,
and which have too many program headers.
-/

namespace ChainBoot.Elf

variable {c : Class} {bs : Bytes}

/-- a writer that needs two pieces is given up with either -/
theorem bind_eq_map₂ {α β γ : Type} (x : Option α) (y : Option β) (f : α → β → γ) :
    (do let a ← x; let b ← y; return f a b) = Option.map₂ f x y := by
  cases x with
  | none => rfl
  | some a => cases y <;> rfl

/-! ## fields -/

theorem narrow?_eq_none_iff (w n : Nat) : narrow? w n = none ↔ Nat.pow 256 w ≤ n := by
  unfold narrow?
  rw [ite_eq_right_iff, ← Nat.not_lt]
  exact ⟨fun h hfits => (nomatch h hfits), fun h hfits => absurd hfits h⟩

theorem narrow?_eq_some {w n : Nat} (h : narrow? w n = some bs) :
    n < Nat.pow 256 w ∧ bs = Bytes.le w n := by
  unfold narrow? at h
  rw [Option.ite_none_right_eq_some] at h
  exact ⟨h.1, (Option.some.inj h.2).symm⟩

/-- only a 32-bit class can be too narrow for a word of 64 bits -/
theorem Class.word?_eq_none_iff (c : Class) (v : UInt64) :
    c.word? v = none ↔ c = .elf32 ∧ 0x100000000 ≤ v.toNat := by
  cases c with
  | elf32 => exact (narrow?_eq_none_iff 4 v.toNat).trans ⟨fun h => ⟨rfl, h⟩, And.right⟩
  | elf64 => exact ⟨fun h => (nomatch h), fun h => (nomatch h.1)⟩

theorem Class.word?_elf32 {v : UInt64} (h : Class.elf32.word? v = some bs) :
    v.toNat < 0x100000000 ∧ bs = Bytes.le 4 v.toNat := narrow?_eq_some h

theorem Class.word?_elf64 {v : UInt64} (h : Class.elf64.word? v = some bs) :
    bs = Bytes.le 8 v.toNat := (Option.some.inj h).symm

theorem Class.length_word? {v : UInt64} (h : c.word? v = some bs) : bs.length = c.wordSize := by
  cases c with
  | elf32 => rw [(word?_elf32 h).2, Bytes.length_le]; rfl
  | elf64 => rw [word?_elf64 h, Bytes.length_le]; rfl

/-- a value that fits 32 bits is the same when it is read back into 64 -/
theorem toUInt64_ofNat {v : UInt64} (h : v.toNat < 0x100000000) :
    (UInt32.ofNat v.toNat).toUInt64 = v := by
  apply UInt64.toNat.inj
  rw [UInt32.toNat_toUInt64, UInt32.toNat_ofNat', Nat.mod_eq_of_lt h]

/-! ## the file header -/

/-- what the file header says about itself and about a program header always fits -/
theorem sizes_fit (c : Class) : narrow? 2 c.entrySize = some (Bytes.le 2 c.entrySize)
    ∧ narrow? 2 c.headerSize = some (Bytes.le 2 c.headerSize)
    ∧ c.word? (UInt64.ofNat c.headerSize) = some (Bytes.le c.wordSize c.headerSize) := by
  cases c <;> exact ⟨rfl, rfl, rfl⟩

theorem fileHeader?_eq (c : Class) (entry : UInt64) (count : Nat) : fileHeader? c entry count
    = Option.map₂ (fun n w => fileHeader c w (Bytes.le c.wordSize c.headerSize)
        (Bytes.le 2 c.headerSize) (Bytes.le 2 c.entrySize) n) (narrow? 2 count) (c.word? entry) := by
  obtain ⟨hentrySize, hheaderSize, hoffset⟩ := sizes_fit c
  unfold fileHeader?
  rw [hentrySize, hheaderSize, hoffset]
  exact bind_eq_map₂ ..

theorem fileHeader?_eq_none_iff {entry : UInt64} {count : Nat} : fileHeader? c entry count = none ↔
    65535 < count ∨ c = .elf32 ∧ 0x100000000 ≤ entry.toNat := by
  rw [fileHeader?_eq, Option.map₂_eq_none_iff, narrow?_eq_none_iff, Class.word?_eq_none_iff]
  rfl

theorem fileHeader?_inv {entry : UInt64} {count : Nat} (h : fileHeader? c entry count = some bs) :
    count < 0x10000 ∧ ∃ w, c.word? entry = some w
      ∧ bs = fileHeader c w (Bytes.le c.wordSize c.headerSize) (Bytes.le 2 c.headerSize)
        (Bytes.le 2 c.entrySize) (Bytes.le 2 count) := by
  rw [fileHeader?_eq, Option.map₂_eq_some_iff] at h
  obtain ⟨n, w, hn, hw, rfl⟩ := h
  obtain ⟨hcount, rfl⟩ := narrow?_eq_some hn
  exact ⟨hcount, w, hw, rfl⟩

theorem length_fileHeader? {entry : UInt64} {count : Nat}
    (h : fileHeader? c entry count = some bs) : bs.length = c.headerSize := by
  obtain ⟨-, w, hw, rfl⟩ := fileHeader?_inv h
  unfold fileHeader
  simp only [List.length_append, Class.length_word? hw, Bytes.length_le, Bytes.length_zeros]
  cases c <;> rfl

theorem Table.read?_fileHeader {entry : UInt64} {count : Nat}
    (h : fileHeader? c entry count = some bs) (tail : Bytes) :
    Table.read? c (bs ++ tail) = some ⟨entry, c.headerSize, c.entrySize, count⟩ := by
  obtain ⟨hcount, w, hw, rfl⟩ := fileHeader?_inv h
  have hnum : (UInt16.ofNat count).toNat = count := by
    rw [UInt16.toNat_ofNat']
    exact Nat.mod_eq_of_lt hcount
  cases c with
  | elf32 =>
    obtain ⟨hentry, rfl⟩ := Class.word?_elf32 hw
    simp only [Table.read?, fileHeader, magic, Class.wordSize, Class.headerSize,
      Class.entrySize, List.append_assoc, List.length_cons, List.length_nil, Bytes.length_le,
      Bytes.length_zeros, Bytes.u16At?_skip, Bytes.u32At?_skip, Bytes.u16At?_le, Bytes.u32At?_le,
      Nat.reduceLeDiff, Nat.reduceSub, Nat.reduceAdd]
    show some (Table.mk (UInt32.ofNat entry.toNat).toUInt64 52 32 (UInt16.ofNat count).toNat) = _
    rw [toUInt64_ofNat hentry, hnum]
  | elf64 =>
    obtain rfl := Class.word?_elf64 hw
    simp only [Table.read?, fileHeader, magic, Class.wordSize, Class.headerSize,
      Class.entrySize, List.append_assoc, List.length_cons, List.length_nil, Bytes.length_le,
      Bytes.length_zeros, Bytes.u16At?_skip, Bytes.u64At?_skip, Bytes.u16At?_le, Bytes.u64At?_le,
      Nat.reduceLeDiff, Nat.reduceSub, Nat.reduceAdd]
    show some (Table.mk (UInt64.ofNat entry.toNat) 64 56 (UInt16.ofNat count).toNat) = _
    rw [UInt64.ofNat_toNat, hnum]

/-! ## program headers -/

theorem Segment.encode?_eq (c : Class) (s : Segment) : s.encode? c
    = Option.map₂ (s.layout c) (c.word? s.paddr.toUInt64) (c.word? s.memsz) :=
  bind_eq_map₂ ..

theorem Segment.encode?_eq_none_iff (c : Class) (s : Segment) : s.encode? c = none ↔
    c = .elf32 ∧ (0x100000000 ≤ s.paddr.val ∨ 0x100000000 ≤ s.memsz.toNat) := by
  rw [Segment.encode?_eq, Option.map₂_eq_none_iff, Class.word?_eq_none_iff,
    Class.word?_eq_none_iff, Address.toNat_toUInt64, ← and_or_left]

theorem Segment.encode?_inv {s : Segment} (h : s.encode? c = some bs) : ∃ paddr memsz,
    c.word? s.paddr.toUInt64 = some paddr ∧ c.word? s.memsz = some memsz
      ∧ bs = s.layout c paddr memsz := by
  rw [Segment.encode?_eq, Option.map₂_eq_some_iff] at h
  obtain ⟨paddr, memsz, hplace, hsize, rfl⟩ := h
  exact ⟨paddr, memsz, hplace, hsize, rfl⟩

theorem Segment.length_encode? {s : Segment} (h : s.encode? c = some bs) :
    bs.length = c.entrySize := by
  obtain ⟨paddr, memsz, hplace, hsize, rfl⟩ := Segment.encode?_inv h
  unfold Segment.layout
  cases c <;> simp only [List.length_append, Class.length_word? hplace, Class.length_word? hsize,
    Bytes.length_le32, Bytes.length_le, Bytes.length_zeros] <;> rfl

theorem Segment.read?_encode {s : Segment} (h : s.encode? c = some bs) (tail : Bytes) :
    Segment.read? c (bs ++ tail) = some s := by
  obtain ⟨paddr, memsz, hplace, hsize, rfl⟩ := Segment.encode?_inv h
  cases c with
  | elf32 =>
    obtain ⟨hlow, rfl⟩ := Class.word?_elf32 hplace
    obtain ⟨hsmall, rfl⟩ := Class.word?_elf32 hsize
    rw [Address.toNat_toUInt64] at hlow
    have hp : Address.ofUInt32 (UInt32.ofNat s.paddr.val) = s.paddr := by
      apply Fin.ext
      rw [Address.val_ofUInt32, UInt32.toNat_ofNat', Nat.mod_eq_of_lt hlow]
    have hm := toUInt64_ofNat hsmall
    simp only [Segment.read?, Segment.layout, Class.wordSize, Bytes.le32, List.append_assoc,
      Bytes.length_le, Bytes.length_zeros, Bytes.u32At?_skip, Bytes.u32At?_le, UInt32.ofNat_toNat,
      Address.toNat_toUInt64, Nat.reduceLeDiff, Nat.reduceSub, Option.bind_eq_bind,
      Option.bind_some, hp, hm]
    rfl
  | elf64 =>
    obtain rfl := Class.word?_elf64 hplace
    obtain rfl := Class.word?_elf64 hsize
    have hp : Address.ofUInt64 (UInt64.ofNat s.paddr.val) = s.paddr :=
      Address.ofUInt64_toUInt64 s.paddr
    simp only [Segment.read?, Segment.layout, Class.wordSize, Bytes.le32, List.append_assoc,
      Bytes.length_le, Bytes.length_zeros, Bytes.u32At?_skip, Bytes.u32At?_le, Bytes.u64At?_skip,
      Bytes.u64At?_le, UInt32.ofNat_toNat, UInt64.ofNat_toNat, Address.toNat_toUInt64,
      Nat.reduceLeDiff, Nat.reduceSub, Option.bind_eq_bind, Option.bind_some, hp]
    rfl

theorem table?_cons (c : Class) (s : Segment) (ss : List Segment) :
    table? c (s :: ss) = Option.map₂ (· ++ ·) (s.encode? c) (table? c ss) :=
  bind_eq_map₂ ..

theorem table?_eq_none_iff (ss : List Segment) :
    table? c ss = none ↔ ∃ s ∈ ss, s.encode? c = none := by
  induction ss with
  | nil => exact ⟨fun h => (nomatch h), fun ⟨_, hs, _⟩ => (nomatch hs)⟩
  | cons s ss ih =>
    rw [table?_cons, Option.map₂_eq_none_iff, ih]
    simp only [List.mem_cons, exists_eq_or_imp]

theorem segments?_table {ss : List Segment} (h : table? c ss = some bs) (tail : Bytes) :
    segments? c ss.length (bs ++ tail) = some ss ∧ bs.length = ss.length * c.entrySize := by
  induction ss generalizing bs with
  | nil =>
    cases h
    exact ⟨rfl, (Nat.zero_mul _).symm⟩
  | cons s ss ih =>
    rw [table?_cons, Option.map₂_eq_some_iff] at h
    obtain ⟨front, rest, hfront, hrest, rfl⟩ := h
    have hlen := Segment.length_encode? hfront
    obtain ⟨hback, hlength⟩ := ih hrest
    constructor
    · rw [List.append_assoc, List.length_cons, segments?, Segment.read?_encode hfront,
        List.drop_left' hlen, hback]
      rfl
    · rw [List.length_append, hlen, hlength, List.length_cons, Nat.succ_mul, Nat.add_comm]

/-! ## whole images -/

/-- the checks of the parser behind a file header that can be read -/
theorem Header.parse_of_table {bs : Bytes} {t : Table} (hmagic : bs.take 4 = magic)
    (hclass : bs.getD 4 0 = c.ident) (hencoding : bs.getD 5 0 = littleEndian)
    (hlen : c.headerSize ≤ bs.length) (ht : Table.read? c bs = some t) :
    Header.parse bs = if maxSegments < t.count then .error (.tooManySegments t.count)
      else if 0 < t.count ∧ t.entrySize ≠ c.entrySize then
        .error (.badEntrySize c.entrySize t.entrySize)
      else if bs.length < t.offset + t.count * t.entrySize then .error .outOfBounds
      else match segments? c t.count (bs.drop t.offset) with
        | none => .error .outOfBounds
        | some ss => .ok ⟨c, t.entry, ss⟩ := by
  have hident : identSize ≤ c.headerSize := by cases c <;> decide
  unfold Header.parse
  rw [if_neg (by omega), if_neg (not_not_intro hmagic), hclass, Class.ofIdent?_ident]
  dsimp only
  rw [if_neg (not_not_intro hencoding), if_neg (by omega)]
  generalize Table.read? c bs = table at ht ⊢
  subst ht
  rfl

theorem Header.encode?_eq (h : Header) : h.encode? = Option.map₂ (· ++ ·)
    (fileHeader? h.cls h.entry h.segments.length) (table? h.cls h.segments) :=
  bind_eq_map₂ ..

theorem Header.encode?_eq_none_iff (h : Header) : h.encode? = none ↔
    65535 < h.segments.length ∨ h.cls = .elf32 ∧ (0x100000000 ≤ h.entry.toNat
      ∨ ∃ s ∈ h.segments, 0x100000000 ≤ s.paddr.val ∨ 0x100000000 ≤ s.memsz.toNat) := by
  rw [Header.encode?_eq, Option.map₂_eq_none_iff, fileHeader?_eq_none_iff, table?_eq_none_iff,
    or_assoc, and_or_left]
  refine or_congr Iff.rfl (or_congr Iff.rfl ?_)
  simp only [Segment.encode?_eq_none_iff]
  exact ⟨fun ⟨s, hs, hc, hw⟩ => ⟨hc, s, hs, hw⟩, fun ⟨hc, s, hs, hw⟩ => ⟨s, hs, hc, hw⟩⟩

theorem Header.parse_encode {h : Header} (henc : h.encode? = some bs) :
    Header.parse bs = if maxSegments < h.segments.length then
      .error (.tooManySegments h.segments.length) else .ok h := by
  rw [Header.encode?_eq, Option.map₂_eq_some_iff] at henc
  obtain ⟨front, rest, hfront, hrest, rfl⟩ := henc
  have htable := Table.read?_fileHeader hfront rest
  have hheader := length_fileHeader? hfront
  obtain ⟨hback, hlength⟩ := segments?_table hrest []
  rw [List.append_nil] at hback
  have hlen : (front ++ rest).length = h.cls.headerSize + h.segments.length * h.cls.entrySize := by
    rw [List.length_append, hheader, hlength]
  have hdrop : (front ++ rest).drop h.cls.headerSize = rest := List.drop_left' hheader
  obtain ⟨-, w, -, rfl⟩ := fileHeader?_inv hfront
  rw [Header.parse_of_table rfl rfl rfl (by omega) htable]
  dsimp only
  split
  · rfl
  · rw [if_neg (fun hne => hne.2 rfl), if_neg (by omega), hdrop, hback]

/-- **A header is written unless a value does not fit its place, and is read back as it was.**  An
image of more program headers than are tracked says so instead. -/
theorem Header.encode?_parse (h : Header) :
    (h.encode? = none ↔ 65535 < h.segments.length ∨ h.cls = .elf32 ∧ (0x100000000 ≤ h.entry.toNat
      ∨ ∃ s ∈ h.segments, 0x100000000 ≤ s.paddr.val ∨ 0x100000000 ≤ s.memsz.toNat))
    ∧ ∀ bs, h.encode? = some bs →
      (h.segments.length ≤ 64 → ∃ r, Header.parse bs = .ok r ∧ r.cls = h.cls ∧ r.entry = h.entry
        ∧ r.segments = h.segments
        ∧ r.loadable = h.segments.filter fun s => s.kind = 1 ∧ 0 < s.memsz)
      ∧ (64 < h.segments.length →
        Header.parse bs = .error (.tooManySegments h.segments.length)) := by
  refine ⟨h.encode?_eq_none_iff, fun bs hbs => ?_⟩
  rw [Header.parse_encode hbs]
  refine ⟨fun hle => ⟨h, if_neg (Nat.not_lt.mpr hle), rfl, rfl, rfl, ?_⟩, fun hlt => if_pos hlt⟩
  refine List.filter_congr fun s _ => ?_
  rw [Bool.decide_and]
  rfl

/-- a loadable segment, one of another kind, and one that takes no memory, in a 32-bit image -/
def sampleImage : Header :=
  ⟨.elf32, 0x400000, [⟨1, .ofUInt32 0x400000, 0x1234, ⟨0xA0000006⟩⟩, ⟨4, .ofUInt32 0x34, 0x40, ⟨0⟩⟩,
    ⟨1, .ofUInt32 0xFFFFFFFF, 0, ⟨4⟩⟩]⟩

def sampleBytes : Bytes := sampleImage.encode?.getD []

/-- one program header more than is tracked -/
def longImage : Header := ⟨.elf64, 0, List.replicate 65 ⟨1, .top, 1, ⟨7⟩⟩⟩

theorem sampleImage_readBack :
    (∃ bs r, sampleImage.encode? = some bs ∧ Header.parse bs = .ok r ∧ r.cls = .elf32
      ∧ r.entry = 0x400000 ∧ r.segments = sampleImage.segments
      ∧ r.loadable = [⟨1, .ofUInt32 0x400000, 0x1234, ⟨0xA0000006⟩⟩])
    ∧ ∃ bs, longImage.encode? = some bs ∧ Header.parse bs = .error (.tooManySegments 65) := by
  obtain ⟨_, hsample⟩ := Option.isSome_iff_exists.mp (by decide +kernel : sampleImage.encode?.isSome)
  obtain ⟨_, hlong⟩ := Option.isSome_iff_exists.mp (by decide +kernel : longImage.encode?.isSome)
  obtain ⟨r, hr, hc, he, hs, hl⟩ :=
    ((Header.encode?_parse sampleImage).2 _ hsample).1 (by decide)
  exact ⟨⟨_, r, hsample, hr, hc, he, hs, hl.trans (by decide)⟩,
    _, hlong, ((Header.encode?_parse longImage).2 _ hlong).2 (by decide)⟩

end ChainBoot.Elf
