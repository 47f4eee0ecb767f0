import ChainBoot.Proofs.Format
import ChainBoot.Proofs.EntryKind

/-!
# Entries one stride apart

The entries of a memory map lie a declared number of bytes apart, at least those of an entry and
else any number.  `Strided` says on the raw bytes which entries there are and where each stands: as
many as there is room for, the last one without what would fill up its stride.

The entries are read one at a time.  `Cursor.find` is what a machine does for one of them: sums are
words, checked where they might not be, and each field is looked up at its own offset.  That a field
is looked up behind the last byte, or that an entry is read and then lost because the place of the
next one is no word, are outcomes of their own, and a run of `Cursor.Gives` meets neither.

* `strided_iff`            the entries of a map are those that stand one stride apart;
* `gives_iff`              they are what a cursor gives before it ends, on any machine;
* `memoryEntries_strided`  which tags hold a map, what is said of the others, and what a descriptor
                           lists.
-/

namespace ChainBoot

/-! ## one entry -/

namespace MemoryEntry

variable {bs : Bytes} {off : Nat} {e e' : MemoryEntry}

/-- the twenty bytes at an offset are those of the entry -/
structure StandsAt (e : MemoryEntry) (bs : Bytes) (off : Nat) : Prop where
  base : bs.field? off 8 = some e.base.val
  length : bs.field? (off + 8) 8 = some e.length.toNat
  kind : ∃ raw : UInt32, bs.field? (off + 16) 4 = some raw.toNat ∧ e.kind = .ofRaw raw

theorem standsAt_iff : e.StandsAt bs off ↔ bs.field? off 8 = some e.base.val
    ∧ bs.field? (off + 8) 8 = some e.length.toNat
    ∧ ∃ raw : UInt32, bs.field? (off + 16) 4 = some raw.toNat ∧ e.kind = .ofRaw raw :=
  ⟨fun ⟨hb, hl, hk⟩ => ⟨hb, hl, hk⟩, fun ⟨hb, hl, hk⟩ => ⟨hb, hl, hk⟩⟩

theorem standsAt_drop (k : Nat) : e.StandsAt (bs.drop k) off ↔ e.StandsAt bs (k + off) := by
  simp only [standsAt_iff, Bytes.field?_drop, Nat.add_assoc]

theorem StandsAt.unique (h : e.StandsAt bs off) (h' : e'.StandsAt bs off) : e = e' := by
  obtain ⟨base, length, kind⟩ := e
  obtain ⟨base', length', kind'⟩ := e'
  obtain ⟨hbase, hlength, raw, hraw, hkind⟩ := h
  obtain ⟨hbase', hlength', raw', hraw', hkind'⟩ := h'
  obtain rfl : base = base' := Fin.ext (Option.some.inj (hbase.symm.trans hbase'))
  obtain rfl : length = length' :=
    UInt64.toNat.inj (Option.some.inj (hlength.symm.trans hlength'))
  obtain rfl : raw = raw' := UInt32.toNat.inj (Option.some.inj (hraw.symm.trans hraw'))
  obtain rfl : kind = kind' := hkind.trans hkind'.symm
  rfl

theorem read?_eq_some_iff : read? bs = some e ↔ wireSize ≤ bs.length ∧ e.StandsAt bs 0 := by
  constructor
  · intro h
    have hlen := wireSize_le_of_read? h
    rw [read?_eq hlen] at h
    obtain ⟨base, hbase, h⟩ := Option.bind_eq_some_iff.mp h
    obtain ⟨length, hlength, h⟩ := Option.bind_eq_some_iff.mp h
    obtain ⟨raw, hraw, h⟩ := Option.bind_eq_some_iff.mp h
    cases h
    refine ⟨hlen, ?_, ?_, raw, ?_, rfl⟩
    · rw [Bytes.field?_eight, hbase]
      rfl
    · rw [Bytes.field?_eight, hlength]
      rfl
    · rw [Bytes.field?_four, hraw]
      rfl
  · obtain ⟨base, length, kind⟩ := e
    rintro ⟨hlen, hbase, hlength, raw, hraw, hkind⟩
    rw [Bytes.field?_eight, Option.map_eq_some_iff] at hbase hlength
    rw [Bytes.field?_four, Option.map_eq_some_iff] at hraw
    obtain ⟨b, hb, hbase⟩ := hbase
    obtain ⟨n, hn, hlength⟩ := hlength
    obtain ⟨r, hr, hraw⟩ := hraw
    obtain rfl : Address.ofUInt64 b = base := Fin.ext hbase
    obtain rfl : n = length := UInt64.toNat.inj hlength
    obtain rfl : r = raw := UInt32.toNat.inj hraw
    obtain rfl : kind = .ofRaw r := hkind
    rw [read?_eq hlen, hb, hn, hr]
    rfl

theorem exists_read? (h : wireSize ≤ bs.length) : ∃ e, read? bs = some e := by
  rw [wireSize] at h
  obtain ⟨b, hb⟩ := Bytes.exists_field? (show 0 + 8 ≤ bs.length by omega)
  obtain ⟨n, hn⟩ := Bytes.exists_field? (show 8 + 8 ≤ bs.length by omega)
  obtain ⟨r, hr⟩ := Bytes.exists_field? (show 16 + 4 ≤ bs.length by omega)
  refine ⟨⟨⟨b, Bytes.field?_lt hb⟩, .ofNat n, .ofRaw (.ofNat r)⟩,
    read?_eq_some_iff.mpr ⟨h, hb, ?_, .ofNat r, ?_, rfl⟩⟩
  · rw [hn, UInt64.toNat_ofNat_of_lt' (Bytes.field?_lt hn)]
  · rw [hr, UInt32.toNat_ofNat_of_lt' (Bytes.field?_lt hr)]

theorem read?_eq_none_iff : read? bs = none ↔ bs.length < wireSize := by
  constructor
  · intro h
    refine Nat.lt_of_not_le fun hlen => ?_
    obtain ⟨e, he⟩ := exists_read? hlen
    rw [h] at he
    cases he
  · intro h
    exact Option.eq_none_iff_forall_ne_some.mpr fun e he =>
      Nat.not_le_of_lt h (wireSize_le_of_read? he)

end MemoryEntry

/-! ## all entries -/

namespace MemoryMap

/-- the entries stand a stride apart, the first one at an offset, and there are as many as there is
room for -/
structure Strided (bs : Bytes) (first stride : Nat) (es : List MemoryEntry) : Prop where
  room : ∀ i, i < es.length ↔ first + i * stride + MemoryEntry.wireSize ≤ bs.length
  stands : ∀ (i : Nat) (e : MemoryEntry), es[i]? = some e → e.StandsAt bs (first + i * stride)

variable {bs body : Bytes} {first stride : Nat} {pos : 0 < stride} {e : MemoryEntry}
  {es es' : List MemoryEntry}

theorem strided_unique (h : Strided bs first stride es) (h' : Strided bs first stride es') :
    es = es' := by
  apply List.ext_getElem?
  intro i
  by_cases hroom : first + i * stride + MemoryEntry.wireSize ≤ bs.length
  · have hi := (h.room i).mpr hroom
    have hi' := (h'.room i).mpr hroom
    rw [List.getElem?_eq_getElem hi, List.getElem?_eq_getElem hi']
    exact congrArg some ((h.stands i _ (List.getElem?_eq_getElem hi)).unique
      (h'.stands i _ (List.getElem?_eq_getElem hi')))
  · have hi := mt (h.room i).mp hroom
    have hi' := mt (h'.room i).mp hroom
    rw [List.getElem?_eq_none (Nat.not_lt.mp hi), List.getElem?_eq_none (Nat.not_lt.mp hi')]

theorem strided_drop (k : Nat) :
    Strided (bs.drop k) first stride es ↔ Strided bs (k + first) stride es := by
  have hroom : ∀ i, first + i * stride + MemoryEntry.wireSize ≤ (bs.drop k).length
      ↔ k + first + i * stride + MemoryEntry.wireSize ≤ bs.length := by
    intro i
    rw [List.length_drop, MemoryEntry.wireSize]
    omega
  constructor
  · rintro ⟨hcount, hstands⟩
    refine ⟨fun i => (hcount i).trans (hroom i), fun i e he => ?_⟩
    rw [Nat.add_assoc, ← MemoryEntry.standsAt_drop]
    exact hstands i e he
  · rintro ⟨hcount, hstands⟩
    refine ⟨fun i => (hcount i).trans (hroom i).symm, fun i e he => ?_⟩
    rw [MemoryEntry.standsAt_drop, ← Nat.add_assoc]
    exact hstands i e he

theorem entriesIn_eq_nil_iff :
    entriesIn stride pos body = [] ↔ body.length < MemoryEntry.wireSize := by
  rw [← MemoryEntry.read?_eq_none_iff]
  cases hread : MemoryEntry.read? body with
  | none => simp [entriesIn_of_none hread]
  | some e => simp [entriesIn_of_read? hread]

theorem strided_of_entriesIn (h : entriesIn stride pos body = es) : Strided body 0 stride es := by
  induction es generalizing body with
  | nil =>
    have hshort := entriesIn_eq_nil_iff.mp h
    refine ⟨fun i => ⟨fun hi => absurd hi (Nat.not_lt_zero i), fun hi => ?_⟩, fun i e he => ?_⟩
    · omega
    · rw [List.getElem?_nil] at he
      cases he
  | cons e es ih =>
    obtain ⟨hread, hrest⟩ := entriesIn_eq_cons_iff.mp h
    obtain ⟨hlen, hstands⟩ := MemoryEntry.read?_eq_some_iff.mp hread
    -- behind the first entry all others stand one stride further on
    obtain ⟨hroom, hstandrest⟩ := (strided_drop _).mp (ih hrest)
    refine ⟨fun i => ?_, fun i e' he' => ?_⟩
    · cases i with
      | zero =>
        rw [List.length_cons]
        omega
      | succ i =>
        rw [List.length_cons, Nat.add_lt_add_iff_right, hroom i, Nat.succ_mul]
        omega
    · cases i with
      | zero =>
        cases he'
        rw [Nat.zero_mul]
        exact hstands
      | succ i =>
        have hplace : 0 + (i + 1) * stride = stride + 0 + i * stride := by
          rw [Nat.succ_mul]
          omega
        rw [hplace]
        exact hstandrest i e' he'

/-- **The entries are those that stand one stride apart.** -/
theorem strided_iff : Strided body 0 stride es ↔ entriesIn stride pos body = es :=
  ⟨fun h => strided_unique (strided_of_entriesIn rfl) h, strided_of_entriesIn⟩

/-! ## one entry at a time -/

/-- a sum of two words, if it is a word -/
def sum? (word a b : Nat) : Option Nat := if a + b < word then some (a + b) else none

/-- a place in the body of a map -/
structure Cursor where
  body : Bytes
  stride : Nat
  offset : Nat

/-- what comes of asking for one more entry -/
inductive Found where
  | entry (e : MemoryEntry) (behind : Cursor)
  /-- the bytes of an entry are not there -/
  | exhausted
  /-- a field was looked up behind the last byte -/
  | outside
  /-- the entry was read, and then the place of the next one is no word -/
  | lost

namespace Cursor

variable {word offset : Nat}

/-- the entry at a cursor, on a machine whose words are the numbers below `word` -/
def find (word : Nat) (c : Cursor) : Found :=
  match sum? word c.offset MemoryEntry.wireSize with
  | none => .exhausted
  | some stop =>
    if c.body.length < stop then .exhausted
    -- these two sums are words, since the one for the end is
    else match c.body.u64At? c.offset, c.body.u64At? (c.offset + 8),
        c.body.u32At? (c.offset + 16) with
      | some base, some length, some raw =>
        match sum? word c.offset c.stride with
        | some next => .entry ⟨.ofUInt64 base, length, .ofRaw raw⟩ ⟨c.body, c.stride, next⟩
        | none => .lost
      | _, _, _ => .outside

/-- the cursor gives these entries one behind the other and then ends -/
inductive Gives (word : Nat) : Cursor → List MemoryEntry → Prop where
  | exhausted {c : Cursor} (h : c.find word = .exhausted) : Gives word c []
  | entry {c behind : Cursor} {e : MemoryEntry} {es : List MemoryEntry}
      (h : c.find word = .entry e behind) (hrest : Gives word behind es) : Gives word c (e :: es)

theorem find_of_read? (hread : MemoryEntry.read? (body.drop offset) = some e)
    (hnext : offset + stride < word) (hword : body.length < word) :
    find word ⟨body, stride, offset⟩ = .entry e ⟨body, stride, offset + stride⟩ := by
  have hlen := MemoryEntry.wireSize_le_of_read? hread
  rw [MemoryEntry.read?_eq hlen, Bytes.u64At?_drop, Bytes.u64At?_drop, Bytes.u32At?_drop] at hread
  obtain ⟨base, hbase, hread⟩ := Option.bind_eq_some_iff.mp hread
  obtain ⟨length, hlength, hread⟩ := Option.bind_eq_some_iff.mp hread
  obtain ⟨raw, hraw, hread⟩ := Option.bind_eq_some_iff.mp hread
  cases hread
  rw [Nat.add_zero] at hbase
  rw [List.length_drop] at hlen
  have hroom : offset + MemoryEntry.wireSize ≤ body.length := by
    rw [MemoryEntry.wireSize] at *
    omega
  have hend : sum? word offset MemoryEntry.wireSize = some (offset + MemoryEntry.wireSize) :=
    if_pos (Nat.lt_of_le_of_lt hroom hword)
  have hsum : sum? word offset stride = some (offset + stride) := if_pos hnext
  unfold find
  dsimp only
  rw [hend]
  dsimp only
  rw [if_neg (Nat.not_lt.mpr hroom), hbase, hlength, hraw, hsum]

theorem find_of_none (hread : MemoryEntry.read? (body.drop offset) = none) :
    find word ⟨body, stride, offset⟩ = .exhausted := by
  have hshort := MemoryEntry.read?_eq_none_iff.mp hread
  rw [List.length_drop] at hshort
  unfold find
  dsimp only
  cases hend : sum? word offset MemoryEntry.wireSize with
  | none => rfl
  | some stop =>
    unfold sum? at hend
    split at hend
    · cases hend
      exact if_pos (by omega)
    · cases hend

/-- Induction on the entries.  A cursor is at the first one or has passed a stride, so that in front
of the last byte the place of the next one is at most twice as far. -/
theorem gives_iff_of_place (hstride : stride < word) (hbody : 2 * body.length ≤ word)
    (hplace : offset = 0 ∨ stride ≤ offset) :
    Gives word ⟨body, stride, offset⟩ es ↔ entriesIn stride pos (body.drop offset) = es := by
  have hfits : ∀ {o e}, o = 0 ∨ stride ≤ o → MemoryEntry.read? (body.drop o) = some e →
      find word ⟨body, stride, o⟩ = .entry e ⟨body, stride, o + stride⟩ := by
    intro o e ho hread
    have hlen := MemoryEntry.wireSize_le_of_read? hread
    rw [List.length_drop, MemoryEntry.wireSize] at hlen
    exact find_of_read? hread (by omega) (by omega)
  induction es generalizing offset with
  | nil =>
    cases hread : MemoryEntry.read? (body.drop offset) with
    | none => exact ⟨fun _ => entriesIn_of_none hread, fun _ => .exhausted (find_of_none hread)⟩
    | some e =>
      rw [entriesIn_of_read? hread]
      constructor
      · rintro ⟨hfind⟩
        rw [hfits hplace hread] at hfind
        cases hfind
      · intro h
        cases h
  | cons e es ih =>
    have hbehind : offset + stride = 0 ∨ stride ≤ offset + stride := .inr (Nat.le_add_left ..)
    have hrest_iff := ih hbehind
    rw [entriesIn_eq_cons_iff, List.drop_drop]
    constructor
    · intro h
      cases h with
      | entry hfind hrest =>
        cases hread : MemoryEntry.read? (body.drop offset) with
        | none =>
          rw [find_of_none hread] at hfind
          cases hfind
        | some e' =>
          rw [hfits hplace hread] at hfind
          cases hfind
          exact ⟨rfl, hrest_iff.mp hrest⟩
    · rintro ⟨hread, hrest⟩
      exact .entry (hfits hplace hread) (hrest_iff.mpr hrest)

/-- **A cursor at the front of a body gives the entries of the map**, if strides are words and the
body is at most half as long as there are words. -/
theorem gives_iff (hstride : stride < word) (hbody : 2 * body.length ≤ word) :
    Gives word ⟨body, stride, 0⟩ es ↔ entriesIn stride pos body = es :=
  gives_iff_of_place hstride hbody (.inl rfl)

end Cursor

end MemoryMap

/-! ## tags -/

namespace Tag

variable {t : Tag} {m : MemoryMap} {stride : Nat} {es : List MemoryEntry}

/-- the tag holds a map with this stride: there is room for the two words in front of the entries,
and a stride is no less than an entry -/
structure Maps (t : Tag) (stride : Nat) : Prop where
  type : t.type = TagType.memoryMap
  header : 8 ≤ t.payload.length
  declares : t.payload.field? 0 4 = some stride
  wide : MemoryEntry.wireSize ≤ stride

/-- what a tag adds to the entries of a descriptor -/
inductive Adds (t : Tag) : List MemoryEntry → Prop where
  | entries {stride : Nat} {es : List MemoryEntry} (hmap : t.Maps stride)
      (hes : MemoryMap.Strided t.payload 8 stride es) : Adds t es
  /-- the tag is none of a map, or is rejected -/
  | nothing (hno : ∀ stride, ¬ t.Maps stride) : Adds t []

theorem memoryMap_of_short (h : t.payload.length < 8) : t.memoryMap = .error t.truncated := by
  unfold memoryMap
  rw [(Bytes.u32At?_eq_none_iff t.payload 4).mpr h]
  cases t.payload.u32At? 0 <;> rfl

theorem memoryMap_of_narrow {size : UInt32} (hlen : 8 ≤ t.payload.length)
    (hsize : t.payload.u32At? 0 = some size) (hnarrow : size.toNat < MemoryEntry.wireSize) :
    t.memoryMap = .error (.badEntrySize size) := by
  obtain ⟨version, hversion⟩ := Bytes.exists_u32At? hlen
  unfold memoryMap
  rw [hsize, hversion]
  exact dif_neg (Nat.not_le.mpr hnarrow)

theorem Maps.exists_memoryMap (h : t.Maps stride) :
    ∃ m, t.memoryMap = .ok m ∧ m.entrySize.toNat = stride := by
  have hdeclares := h.declares
  rw [Bytes.field?_four, Option.map_eq_some_iff] at hdeclares
  obtain ⟨size, hsize, rfl⟩ := hdeclares
  obtain ⟨version, hversion⟩ := Bytes.exists_u32At? h.header
  exact ⟨⟨size, version, t.payload.drop 8, h.wide⟩,
    memoryMap_eq_ok_iff.mpr ⟨hsize, hversion, rfl⟩, rfl⟩

theorem maps_of_memoryMap? (h : t.memoryMap? = some m) : t.Maps m.entrySize.toNat := by
  obtain ⟨htype, hmap⟩ := memoryMap?_eq_some_iff.mp h
  obtain ⟨hsize, hversion, -⟩ := memoryMap_eq_ok_iff.mp hmap
  refine ⟨htype, ?_, ?_, m.wide⟩
  · refine Nat.not_lt.mp fun hshort => ?_
    rw [(Bytes.u32At?_eq_none_iff t.payload 4).mpr hshort] at hversion
    cases hversion
  · rw [Bytes.field?_four, hsize]
    rfl

theorem strided_iff_entries (h : t.memoryMap = .ok m) :
    MemoryMap.Strided t.payload 8 m.entrySize.toNat es ↔ m.entries = es := by
  obtain ⟨-, -, hbody⟩ := memoryMap_eq_ok_iff.mp h
  rw [← Nat.add_zero 8, ← MemoryMap.strided_drop, ← hbody]
  exact MemoryMap.strided_iff

theorem adds_iff : t.Adds es ↔ t.entries = es := by
  cases hmap : t.memoryMap? with
  | none =>
    have hnone : t.entries = [] := by
      unfold entries
      rw [hmap]
      rfl
    have hno : ∀ stride, ¬ t.Maps stride := by
      intro stride h
      obtain ⟨m, hm, -⟩ := h.exists_memoryMap
      rw [memoryMap?_eq_some_iff.mpr ⟨h.type, hm⟩] at hmap
      cases hmap
    rw [hnone]
    constructor
    · intro h
      cases h with
      | entries h => exact absurd h (hno _)
      | nothing => rfl
    · rintro rfl
      exact .nothing hno
  | some m =>
    have hm := (memoryMap?_eq_some_iff.mp hmap).2
    have hmaps := maps_of_memoryMap? hmap
    rw [entries_of_memoryMap? hmap, ← strided_iff_entries hm]
    constructor
    · intro h
      cases h with
      | @entries stride _ h hes =>
        have hsame := h.declares.symm.trans hmaps.declares
        rwa [Option.some.inj hsame] at hes
      | nothing h => exact absurd hmaps (h _)
    · exact .entries hmaps

end Tag

namespace Descriptor

theorem forall₂_adds_iff {ts : List Tag} {lists : List (List MemoryEntry)} :
    List.Forall₂ Tag.Adds ts lists ↔ ts.map Tag.entries = lists := by
  induction ts generalizing lists with
  | nil => rw [List.forall₂_nil_left_iff, List.map_nil, eq_comm]
  | cons t ts ih =>
    rw [List.forall₂_cons_left_iff, List.map_cons]
    constructor
    · rintro ⟨es, rest, hadds, hrest, rfl⟩
      rw [Tag.adds_iff.mp hadds, ih.mp hrest]
    · rintro rfl
      exact ⟨_, _, Tag.adds_iff.mpr rfl, ih.mpr rfl, rfl⟩

/-- **A memory map is read one stride after the other, whatever the stride.**  A tag without room
for the two words in front, or with a stride that is less than an entry, is rejected.  Any other holds
the entries that stand in it, and on a machine of any word size they are given one by one, without a
look behind the last byte.  A descriptor lists what its tags add. -/
theorem memoryEntries_strided :
    (∀ t : Tag, t.type = TagType.memoryMap →
      (t.payload.length < 8 → t.content = .error (.truncatedTag TagType.memoryMap t.offset))
      ∧ (∀ size : UInt32, 8 ≤ t.payload.length → t.payload.field? 0 4 = some size.toNat →
        size.toNat < MemoryEntry.wireSize → t.content = .error (.badEntrySize size))
      ∧ ∀ stride, t.Maps stride → ∃ m, t.content = .ok (.memoryMap m)
        ∧ (∀ es, MemoryMap.Strided t.payload 8 stride es ↔ m.entries = es)
        ∧ ∀ word, 0x100000000 ≤ word → 2 * t.payload.length ≤ word → ∀ es,
          MemoryMap.Cursor.Gives word ⟨t.payload.drop 8, stride, 0⟩ es ↔ m.entries = es)
    ∧ ∀ (d : Descriptor) (es : List MemoryEntry), d.memoryEntries = es ↔
      ∃ lists, List.Forall₂ Tag.Adds d.tags lists ∧ lists.flatten = es := by
  refine ⟨fun t htype =>
    ⟨fun hshort => ?_, fun size hlen hsize hnarrow => ?_, fun stride hmaps => ?_⟩, fun d es => ?_⟩
  · rw [Tag.content_of_type_memoryMap htype, Tag.memoryMap_of_short hshort, Tag.truncated, htype]
    rfl
  · rw [Bytes.field?_four, Option.map_eq_some_iff] at hsize
    obtain ⟨size', hsize, heq⟩ := hsize
    obtain rfl : size' = size := UInt32.toNat.inj heq
    rw [Tag.content_of_type_memoryMap htype, Tag.memoryMap_of_narrow hlen hsize hnarrow]
    rfl
  · obtain ⟨m, hm, rfl⟩ := hmaps.exists_memoryMap
    obtain ⟨-, -, hbody⟩ := Tag.memoryMap_eq_ok_iff.mp hm
    refine ⟨m, ?_, fun es => Tag.strided_iff_entries hm, fun word hword hlen es => ?_⟩
    · rw [Tag.content_of_type_memoryMap htype, hm]
      rfl
    · rw [← hbody]
      refine MemoryMap.Cursor.gives_iff (Nat.lt_of_lt_of_le m.entrySize.toNat_lt hword) ?_
      rw [hbody, List.length_drop]
      omega
  · rw [memoryEntries_eq_flatMap, List.flatMap_def]
    constructor
    · rintro rfl
      exact ⟨_, forall₂_adds_iff.mpr rfl, rfl⟩
    · rintro ⟨lists, hlists, rfl⟩
      rw [forall₂_adds_iff.mp hlists]

/-- a map with a stride of 28 and two entries, of which the last one ends with its own bytes -/
def sparseMap : Tag := ⟨8, TagType.memoryMap, List.flatMap Bytes.le32
  [28, 0, 0x1000, 0, 0x2000, 0, 1, 0xAAAAAAAA, 0xBBBBBBBB, 0x100000, 0, 0x3000, 0, 2, 0xCCCCCCCC]⟩

def sparseEntries : List MemoryEntry :=
  [⟨.ofUInt64 0x1000, 0x2000, .available⟩, ⟨.ofUInt64 0x100000, 0x3000, .reserved⟩]

theorem sparseMap_strided :
    sparseMap.Maps 28 ∧ MemoryMap.Strided sparseMap.payload 8 28 sparseEntries
    ∧ MemoryMap.Cursor.Gives 0x100000000 ⟨sparseMap.payload.drop 8, 28, 0⟩ sparseEntries
    ∧ Tag.content ⟨8, TagType.memoryMap, sparseMap.payload.take 7⟩
        = .error (.truncatedTag TagType.memoryMap 8)
    ∧ Tag.content ⟨8, TagType.memoryMap, [16, 0, 0, 0, 0, 0, 0, 0]⟩
        = .error (.badEntrySize 16) := by
  have hmaps : sparseMap.Maps 28 := ⟨rfl, by decide +kernel, by decide +kernel, by decide⟩
  obtain ⟨htags, -⟩ := memoryEntries_strided
  obtain ⟨-, -, hlisted⟩ := htags sparseMap rfl
  obtain ⟨m, hm, hstrided, hgives⟩ := hlisted 28 hmaps
  have hentries : m.entries = sparseEntries := by
    have hlist : sparseMap.entries = sparseEntries := by decide +kernel
    rw [← hlist]
    unfold Tag.entries Tag.memoryMap?
    rw [hm]
    rfl
  refine ⟨hmaps, (hstrided _).mpr hentries, (hgives _ ?_ ?_ _).mpr hentries, (htags _ rfl).1 ?_,
    (htags _ rfl).2.1 16 ?_ ?_ ?_⟩
  all_goals decide +kernel

end Descriptor

end ChainBoot
