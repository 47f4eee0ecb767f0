import ChainBoot.Proofs.Draft

/-!
# The kind of one entry

The kind of a memory map entry is a word of its own.  Other bytes in its place give the entry
another kind, and nothing else that is read from the descriptor changes.

* `read?_overwrite_kind`, `entriesIn_overwrite_kind`   one entry, and one entry among others;
* `memoryMap?_overwrite`                               a map tag with other bytes in its body;
* `exists_overwrite_kind`                              any entry of a descriptor.
-/

namespace ChainBoot

theorem MemoryKind.ofRaw_eq_available_iff (raw : UInt32) : ofRaw raw = .available ↔ raw = 1 := by
  constructor
  · intro h
    rw [← raw_ofRaw raw, h]
    rfl
  · rintro rfl
    rfl

/-! ## entries -/

namespace MemoryEntry

/-- bytes of an entry in front of its kind -/
def kindOffset : Nat := 16

variable {bs : Bytes} {e : MemoryEntry}

theorem read?_congr {as : Bytes} (h : as.take wireSize = bs.take wireSize) : read? as = read? bs := by
  have hw : as.window? 0 wireSize = bs.window? 0 wireSize := by
    unfold Bytes.window?
    rw [List.drop_zero, List.drop_zero, h]
  unfold read?
  rw [hw]

theorem read?_overwrite_kind (h : read? bs = some e) (raw : UInt32) :
    read? (bs.overwrite kindOffset (Bytes.le32 raw)) = some { e with kind := .ofRaw raw } := by
  have hlen := wireSize_le_of_read? h
  have hroom : kindOffset + (Bytes.le32 raw).length ≤ bs.length := by
    rw [Bytes.length_le32, kindOffset]
    rw [wireSize] at hlen
    omega
  have hfront : (bs.overwrite kindOffset (Bytes.le32 raw)).take kindOffset = bs.take kindOffset :=
    Bytes.take_overwrite (Nat.le_of_add_right_le hroom) (Nat.le_refl _)
  have hword : ∀ {off}, off + 8 ≤ kindOffset →
      (bs.overwrite kindOffset (Bytes.le32 raw)).u64At? off = bs.u64At? off := by
    intro off hoff
    rw [← Bytes.u64At?_of_take hoff, hfront, Bytes.u64At?_of_take hoff]
  have hkind : (bs.overwrite kindOffset (Bytes.le32 raw)).u32At? kindOffset = some raw := by
    apply Bytes.u32At?_append
    rw [List.length_take]
    omega
  rw [kindOffset] at hkind
  rw [read?_eq hlen] at h
  rw [read?_eq (by rw [Bytes.length_overwrite hroom]; exact hlen), hword (by decide),
    hword (by decide), kindOffset, hkind]
  obtain ⟨base, hbase, h⟩ := Option.bind_eq_some_iff.mp h
  obtain ⟨length, hlength, h⟩ := Option.bind_eq_some_iff.mp h
  obtain ⟨old, -, h⟩ := Option.bind_eq_some_iff.mp h
  cases h
  rw [hbase, hlength]
  rfl

end MemoryEntry

namespace MemoryMap

variable {stride : Nat} {pos : 0 < stride} {body : Bytes} {before after : List MemoryEntry}
  {e : MemoryEntry}

theorem entriesIn_eq_cons_iff : entriesIn stride pos body = e :: after ↔
    MemoryEntry.read? body = some e ∧ entriesIn stride pos (body.drop stride) = after := by
  cases hread : MemoryEntry.read? body with
  | none => simp [entriesIn_of_none hread]
  | some a => simp [entriesIn_of_read? hread]

theorem room_of_entriesIn (h : entriesIn stride pos body = before ++ e :: after) :
    before.length * stride + MemoryEntry.wireSize ≤ body.length := by
  induction before generalizing body with
  | nil =>
    rw [List.length_nil, Nat.zero_mul, Nat.zero_add]
    exact MemoryEntry.wireSize_le_of_read? (entriesIn_eq_cons_iff.mp h).1
  | cons b before ih =>
    have hle := ih (entriesIn_eq_cons_iff.mp h).2
    rw [List.length_drop, MemoryEntry.wireSize] at hle
    rw [List.length_cons, Nat.succ_mul, MemoryEntry.wireSize]
    omega

/-- the kind of one entry is overwritten, all others stay -/
theorem entriesIn_overwrite_kind (hstride : MemoryEntry.wireSize ≤ stride)
    (h : entriesIn stride pos body = before ++ e :: after) (raw : UInt32) :
    entriesIn stride pos
        (body.overwrite (before.length * stride + MemoryEntry.kindOffset) (Bytes.le32 raw))
      = before ++ { e with kind := .ofRaw raw } :: after := by
  have hroom := room_of_entriesIn h
  have hword : MemoryEntry.kindOffset + (Bytes.le32 raw).length ≤ MemoryEntry.wireSize := by
    rw [Bytes.length_le32]
    decide
  induction before generalizing body with
  | nil =>
    obtain ⟨hread, hafter⟩ := entriesIn_eq_cons_iff.mp h
    rw [List.length_nil, Nat.zero_mul, Nat.zero_add] at hroom ⊢
    refine entriesIn_eq_cons_iff.mpr ⟨MemoryEntry.read?_overwrite_kind hread raw, ?_⟩
    rw [Bytes.drop_overwrite_of_le (Nat.le_trans hword hroom) (Nat.le_trans hword hstride)]
    exact hafter
  | cons b before ih =>
    obtain ⟨hread, htail⟩ := entriesIn_eq_cons_iff.mp h
    rw [List.length_cons, Nat.succ_mul] at hroom ⊢
    have hfits : before.length * stride + stride + MemoryEntry.kindOffset
        + (Bytes.le32 raw).length ≤ body.length := by omega
    refine entriesIn_eq_cons_iff.mpr ⟨?_, ?_⟩
    · -- the first entry is read from bytes that stay
      rw [← hread]
      exact MemoryEntry.read?_congr (Bytes.take_overwrite (Nat.le_of_add_right_le hfits) (by omega))
    · have hplace : before.length * stride + stride + MemoryEntry.kindOffset - stride
          = before.length * stride + MemoryEntry.kindOffset := by omega
      rw [Bytes.drop_overwrite hfits (by omega), hplace]
      exact ih htail (by rw [List.length_drop]; omega)

end MemoryMap

/-! ## tags -/

namespace Tag

variable {t : Tag} {m : MemoryMap}

theorem content_of_type_memoryMap (htype : t.type = TagType.memoryMap) :
    t.content = t.memoryMap.map .memoryMap := by
  unfold content
  rw [if_neg (by rw [htype]; decide), if_neg (by rw [htype]; decide), if_pos htype]

theorem memoryMap?_eq_some_iff :
    t.memoryMap? = some m ↔ t.type = TagType.memoryMap ∧ t.memoryMap = .ok m := by
  by_cases htype : t.type = TagType.memoryMap
  · unfold memoryMap?
    rw [content_of_type_memoryMap htype]
    cases t.memoryMap <;> simp [htype, Except.map]
  · rw [memoryMap?_of_type_ne htype]
    simp [htype]

theorem memoryMap_eq_ok_iff : t.memoryMap = .ok m ↔ t.payload.u32At? 0 = some m.entrySize
    ∧ t.payload.u32At? 4 = some m.version ∧ m.body = t.payload.drop 8 := by
  obtain ⟨entrySize, version, body, wide⟩ := m
  unfold memoryMap
  constructor
  · intro h
    split at h
    · rename_i s v hs hv
      split at h
      · cases h
        exact ⟨hs, hv, rfl⟩
      · cases h
    · cases h
  · rintro ⟨hs, hv, rfl⟩
    dsimp only at hs hv
    rw [hs, hv]
    exact dif_pos wide

theorem memoryMap?_overwrite (h : t.memoryMap? = some m) {k : Nat} {new : Bytes}
    (hroom : 8 + k + new.length ≤ t.payload.length) :
    memoryMap? { t with payload := t.payload.overwrite (8 + k) new }
      = some { m with body := m.body.overwrite k new } := by
  obtain ⟨htype, hmap⟩ := memoryMap?_eq_some_iff.mp h
  obtain ⟨hsize, hversion, hbody⟩ := memoryMap_eq_ok_iff.mp hmap
  have hfront : (t.payload.overwrite (8 + k) new).take 8 = t.payload.take 8 :=
    Bytes.take_overwrite (Nat.le_of_add_right_le hroom) (Nat.le_add_right ..)
  have hword : ∀ {off}, off + 4 ≤ 8 →
      (t.payload.overwrite (8 + k) new).u32At? off = t.payload.u32At? off := by
    intro off hoff
    rw [← Bytes.u32At?_of_take hoff, hfront, Bytes.u32At?_of_take hoff]
  refine memoryMap?_eq_some_iff.mpr ⟨htype, memoryMap_eq_ok_iff.mpr ⟨?_, ?_, ?_⟩⟩
  · show (t.payload.overwrite (8 + k) new).u32At? 0 = some m.entrySize
    rw [hword (by decide), hsize]
  · show (t.payload.overwrite (8 + k) new).u32At? 4 = some m.version
    rw [hword (by decide), hversion]
  · show m.body.overwrite k new = (t.payload.overwrite (8 + k) new).drop 8
    rw [Bytes.drop_overwrite hroom (Nat.le_add_right ..), Nat.add_sub_cancel_left, hbody]

/-- the entries of the map that a tag holds -/
def entries (t : Tag) : List MemoryEntry := (t.memoryMap?.map MemoryMap.entries).getD []

theorem entries_of_memoryMap? (h : t.memoryMap? = some m) : t.entries = m.entries := by
  unfold entries
  rw [h]
  rfl

theorem exists_overwrite_kind {front back : List MemoryEntry} {e : MemoryEntry}
    (h : t.entries = front ++ e :: back) (raw : UInt32) : t.type = TagType.memoryMap ∧
      ∃ k, k + (Bytes.le32 raw).length ≤ t.payload.length
        ∧ entries { t with payload := t.payload.overwrite k (Bytes.le32 raw) }
            = front ++ { e with kind := .ofRaw raw } :: back := by
  cases hm : t.memoryMap? with
  | none =>
    unfold entries at h
    rw [hm] at h
    simp at h
  | some m =>
    obtain ⟨htype, hmap⟩ := memoryMap?_eq_some_iff.mp hm
    obtain ⟨-, -, hbody⟩ := memoryMap_eq_ok_iff.mp hmap
    rw [entries_of_memoryMap? hm] at h
    have hroom := MemoryMap.room_of_entriesIn h
    rw [hbody, List.length_drop, MemoryEntry.wireSize] at hroom
    have hfits : 8 + (front.length * m.entrySize.toNat + MemoryEntry.kindOffset)
        + (Bytes.le32 raw).length ≤ t.payload.length := by
      rw [Bytes.length_le32, MemoryEntry.kindOffset]
      omega
    refine ⟨htype, _, hfits, ?_⟩
    rw [entries_of_memoryMap? (memoryMap?_overwrite hm hfits)]
    exact MemoryMap.entriesIn_overwrite_kind m.wide h raw

end Tag

/-! ## descriptors -/

theorem exists_of_flatMap_eq {α β : Type} {f : α → List β} {as : List α} {before after : List β}
    {b : β} (h : as.flatMap f = before ++ b :: after) :
    ∃ pre a post front back, as = pre ++ a :: post ∧ f a = front ++ b :: back
      ∧ before = pre.flatMap f ++ front ∧ after = back ++ post.flatMap f := by
  induction as generalizing before with
  | nil => simp at h
  | cons a as ih =>
    rw [List.flatMap_cons] at h
    rcases List.append_eq_append_iff.mp h with ⟨rest, rfl, hrest⟩ | ⟨back, hfront, hback⟩
    · obtain ⟨pre, c, post, front, back, rfl, hc, rfl, rfl⟩ := ih hrest
      exact ⟨a :: pre, c, post, front, back, rfl, hc, by rw [List.flatMap_cons, List.append_assoc], rfl⟩
    · cases back with
      | nil =>
        -- the element is the first one of the lists behind
        have hlater : as.flatMap f = [] ++ b :: after := hback.symm
        obtain ⟨pre, c, post, front, back, rfl, hc, hpre, rfl⟩ := ih hlater
        refine ⟨a :: pre, c, post, front, back, rfl, hc, ?_, rfl⟩
        rw [List.flatMap_cons, List.append_assoc, ← hpre, hfront, List.append_nil, List.append_nil]
      | cons c back =>
        obtain ⟨rfl, rfl⟩ := List.cons.inj hback
        exact ⟨[], a, as, before, back, rfl, hfront, rfl, rfl⟩

namespace Descriptor

variable {d : Descriptor} {before after : List MemoryEntry} {e : MemoryEntry}

theorem memoryEntries_eq_flatMap (d : Descriptor) : d.memoryEntries = d.tags.flatMap Tag.entries := by
  unfold memoryEntries memoryMaps
  rw [List.filterMap_eq_flatMap_toList, List.flatMap_assoc]
  refine List.flatMap_congr fun t _ => ?_
  unfold Tag.entries
  cases t.memoryMap? <;> simp

/-- **Any entry can be given another kind in place.**  The other entries stay, and nothing that is
decoded from other tags changes. -/
theorem exists_overwrite_kind (h : d.memoryEntries = before ++ e :: after) (raw : UInt32) :
    ∃ o, headerSize ≤ o ∧ o + (Bytes.le32 raw).length ≤ d.size
      ∧ (d.overwrite o (Bytes.le32 raw)).memoryEntries
          = before ++ { e with kind := .ofRaw raw } :: after
      ∧ (d.overwrite o (Bytes.le32 raw)).framebuffers = d.framebuffers
      ∧ (d.overwrite o (Bytes.le32 raw)).modules = d.modules := by
  rw [memoryEntries_eq_flatMap] at h
  obtain ⟨pre, t, post, front, back, htags, ht, rfl, rfl⟩ := exists_of_flatMap_eq h
  obtain ⟨htype, k, hfits, hentries⟩ := Tag.exists_overwrite_kind ht raw
  have hmem : t ∈ d.tags := by
    rw [htags]
    simp
  let t' : Tag := { t with payload := t.payload.overwrite k (Bytes.le32 raw) }
  have hnew : (d.overwrite (t.offset + tagHeaderSize + k) (Bytes.le32 raw)).tags = pre ++ t' :: post :=
    (tags_overwrite_payload hmem hfits).trans (map_replace htags t')
  -- neither the old tag nor the new one is of another type
  have hothers : ∀ {β : Type} {g : Tag → Option β}, g t = none → g t' = none →
      (pre ++ t' :: post).filterMap g = d.tags.filterMap g := by
    intro β g hg hg'
    rw [htags, List.filterMap_append, List.filterMap_append, List.filterMap_cons_none hg,
      List.filterMap_cons_none hg']
  have hframebuffer : t.type ≠ TagType.framebuffer := by
    rw [htype]
    decide
  have hmodule : t.type ≠ TagType.module := by
    rw [htype]
    decide
  obtain ⟨hlo, -, hhi⟩ := bounds_of_mem_tags hmem
  unfold Tag.stop Tag.size at hhi
  refine ⟨t.offset + tagHeaderSize + k, by omega, by omega, ?_, ?_, ?_⟩
  · rw [memoryEntries_eq_flatMap, hnew, List.flatMap_append, List.flatMap_cons, hentries]
    simp only [List.append_assoc, List.cons_append]
  · unfold framebuffers
    rw [hnew]
    exact hothers (Tag.framebuffer?_of_type_ne hframebuffer) (Tag.framebuffer?_of_type_ne hframebuffer)
  · unfold modules
    rw [hnew]
    exact hothers (Tag.module?_of_type_ne hmodule) (Tag.module?_of_type_ne hmodule)

end Descriptor

end ChainBoot
