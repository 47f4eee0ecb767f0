import Mathlib.Data.List.Basic
import ChainBoot.Descriptor.Draft
import ChainBoot.Proofs.Edits

/-!
# Descriptors are read as they were written

A draft without a declared size of its own is laid out tag by tag, and the walk finds the tags
again where they were put, `DraftTag.layout`.

* `entriesIn_flatMap`, `Framebuffer.read?_encode`   the records inside of a payload;
* `content_cmdline`, `content_module`, ...          what each kind of tag is decoded to;
* `tagsFrom_layout`                                 the walk, by induction on the tags;
* `readBack_encode`                                 all of it for a whole draft, and that the tags
                                                    that were read give the same bytes again.
-/

namespace ChainBoot

/-! ## records -/

theorem Framebuffer.read?_encode (f : Framebuffer) : read? f.encode = some f := by
  have hw : f.encode.window? 0 wireSize = some (f.encode.take wireSize) := by
    refine (Bytes.window?_eq_some_iff ..).mpr ⟨?_, by rw [List.drop_zero]⟩
    unfold encode
    simp only [List.length_append, Bytes.length_le64, Bytes.length_le32]
    show 22 ≤ 24
    decide
  have hbyte : ∀ {i}, i < wireSize → Bytes.u8At? (f.encode.take wireSize) i = f.encode.u8At? i :=
    fun hi => List.getElem?_take_of_lt hi
  unfold read?
  rw [hw, Option.bind_eq_bind, Option.bind_some, Bytes.u64At?_of_take (by decide),
    Bytes.u32At?_of_take (by decide), Bytes.u32At?_of_take (by decide),
    Bytes.u32At?_of_take (by decide), hbyte (by decide), hbyte (by decide)]
  simp only [encode, Bytes.le64, Bytes.le32, List.append_assoc, Bytes.length_le, Bytes.u64At?_le,
    Bytes.u32At?_skip, Bytes.u32At?_le, Bytes.u8At?_skip, Nat.reduceLeDiff, Nat.reduceSub,
    UInt64.ofNat_toNat, UInt32.ofNat_toNat, Address.ofUInt64_toUInt64, Option.bind_eq_bind,
    Option.bind_some]
  rfl

namespace MemoryEntry

/-- what a map holds of an entry: base, length and the number of its kind -/
def fields (e : MemoryEntry) : Address × UInt64 × UInt32 := (e.base, e.length, e.kind.raw)

theorem length_encode (e : MemoryEntry) : e.encode.length = 20 := by
  unfold encode
  simp only [List.length_append, Bytes.length_le64, Bytes.length_le32]

theorem read?_eq {bs : Bytes} (h : wireSize ≤ bs.length) : read? bs = do
    let base ← bs.u64At? 0
    let length ← bs.u64At? 8
    let kind ← bs.u32At? 16
    return ⟨.ofUInt64 base, length, .ofRaw kind⟩ := by
  have hw : bs.window? 0 wireSize = some (bs.take wireSize) :=
    (Bytes.window?_eq_some_iff ..).mpr ⟨h, by rw [List.drop_zero]⟩
  unfold read?
  rw [hw, Option.bind_eq_bind, Option.bind_some, Bytes.u64At?_of_take (by decide),
    Bytes.u64At?_of_take (by decide), Bytes.u32At?_of_take (by decide)]

theorem read?_encode (e : MemoryEntry) {tail : Bytes} (h : 4 ≤ tail.length) :
    read? (e.encode ++ tail) = some { e with kind := .ofRaw e.kind.raw } := by
  have hlen : wireSize ≤ (e.encode ++ tail).length := by
    rw [List.length_append, length_encode, wireSize]
    omega
  rw [read?_eq hlen]
  simp only [encode, Bytes.le64, Bytes.le32, List.append_assoc, Bytes.length_le, Bytes.u64At?_skip,
    Bytes.u32At?_skip, Bytes.u64At?_le, Bytes.u32At?_le, Nat.reduceLeDiff, Nat.reduceSub,
    UInt64.ofNat_toNat, UInt32.ofNat_toNat, Address.ofUInt64_toUInt64, Option.bind_eq_bind, Option.bind_some]
  rfl

end MemoryEntry

namespace MemoryMap

variable {stride : Nat} {pos : 0 < stride} {body : Bytes}

theorem entriesIn_of_read? {e : MemoryEntry} (h : MemoryEntry.read? body = some e) :
    entriesIn stride pos body = e :: entriesIn stride pos (body.drop stride) := by
  rw [entriesIn]
  split
  · rename_i hnone
    rw [h] at hnone
    cases hnone
  · rename_i e' he'
    rw [h] at he'
    cases he'
    rfl

theorem entriesIn_of_none (h : MemoryEntry.read? body = none) : entriesIn stride pos body = [] := by
  rw [entriesIn]
  split
  · rfl
  · rename_i e he
    rw [h] at he
    cases he

end MemoryMap

namespace DraftTag

variable {stride : Nat}

theorem length_paddedEntry (h : MemoryEntry.wireSize ≤ stride) (e : MemoryEntry) :
    (paddedEntry stride e).length = stride := by
  unfold paddedEntry
  rw [MemoryEntry.wireSize] at *
  rw [List.length_append, Bytes.length_zeros, e.length_encode]
  omega

theorem entriesIn_flatMap (h : MemoryEntry.wireSize ≤ stride) (pos : 0 < stride)
    (es : List MemoryEntry) : MemoryMap.entriesIn stride pos (es.flatMap (paddedEntry stride))
      = es.map fun e => { e with kind := .ofRaw e.kind.raw } := by
  induction es with
  | nil => exact MemoryMap.entriesIn_of_none rfl
  | cons e es ih =>
    have hread : MemoryEntry.read? (paddedEntry stride e ++ es.flatMap (paddedEntry stride))
        = some { e with kind := .ofRaw e.kind.raw } := by
      unfold paddedEntry
      rw [List.append_assoc]
      refine e.read?_encode ?_
      rw [MemoryEntry.wireSize] at *
      rw [List.length_append, Bytes.length_zeros, e.length_encode]
      omega
    rw [List.flatMap_cons, MemoryMap.entriesIn_of_read? hread,
      List.drop_left' (length_paddedEntry h e), ih]
    rfl

/-! ## what the tags of a draft say -/

/-- the tag that a draft tag becomes at an offset -/
def place (o : Nat) (t : DraftTag) : Tag := ⟨o, t.type, t.payload⟩

variable (o : Nat)

theorem content_cmdline {text : String} (h : '\x00' ∉ text.toList) :
    ((cmdline text).place o).content = .ok (.cmdline text) := by
  show Except.ok (Content.cmdline (Bytes.cString (Bytes.ofString text ++ [0]))) = _
  rw [Bytes.cString_ofString h]

theorem content_module {m : BootModule} (h : '\x00' ∉ m.label.toList) :
    ((module m).place o).content = .ok (.module m) := by
  have hread : BootModule.read? ((module m).place o).payload = some m := by
    show BootModule.read? (Bytes.le32 m.first ++ Bytes.le32 m.last ++ Bytes.ofString m.label ++ [0]) = _
    rw [List.append_assoc _ (Bytes.ofString m.label), BootModule.read?_append,
      Bytes.cString_ofString h]
  have htype : ((module m).place o).type = TagType.module := rfl
  unfold Tag.content
  rw [htype, if_neg (by decide), if_pos rfl, hread]

theorem memoryMap_place {entrySize : UInt32} (h : MemoryEntry.wireSize ≤ entrySize.toNat)
    (es : List MemoryEntry) : ((memoryMap entrySize es).place o).memoryMap
      = .ok ⟨entrySize, 0, es.flatMap (paddedEntry entrySize.toNat), h⟩ := by
  let body := es.flatMap (paddedEntry entrySize.toNat)
  have hpay : ((memoryMap entrySize es).place o).payload = Bytes.le 4 entrySize.toNat
      ++ (Bytes.le 4 0 ++ body) := List.append_assoc ..
  have hbody : (Bytes.le 4 entrySize.toNat ++ (Bytes.le 4 0 ++ body)).drop 8 = body := by
    rw [← List.append_assoc, List.drop_left' (by simp only [List.length_append, Bytes.length_le])]
  unfold Tag.memoryMap
  simp only [hpay, Bytes.u32At?_skip, Bytes.u32At?_le, Bytes.length_le, Nat.reduceSub,
    UInt32.ofNat_toNat, Nat.le_refl, hbody]
  exact dif_pos h

/-- every stride that has room for an entry gives the entries back -/
theorem content_memoryMap {entrySize : UInt32} (h : MemoryEntry.wireSize ≤ entrySize.toNat)
    (es : List MemoryEntry) : ∃ m, ((memoryMap entrySize es).place o).content = .ok (.memoryMap m)
      ∧ m.entrySize = entrySize ∧ m.entries.map MemoryEntry.fields = es.map MemoryEntry.fields := by
  have htype : ((memoryMap entrySize es).place o).type = TagType.memoryMap := rfl
  refine ⟨⟨entrySize, 0, es.flatMap (paddedEntry entrySize.toNat), h⟩, ?_, rfl, ?_⟩
  · unfold Tag.content
    rw [htype, if_neg (by decide), if_neg (by decide), if_pos rfl, memoryMap_place o h]
    rfl
  · unfold MemoryMap.entries
    rw [entriesIn_flatMap h, List.map_map]
    refine List.map_congr_left fun e _ => ?_
    show (e.base, e.length, (MemoryKind.ofRaw e.kind.raw).raw) = e.fields
    rw [MemoryKind.raw_ofRaw]
    rfl

theorem content_framebuffer (f : Framebuffer) :
    ((framebuffer f).place o).content = .ok (.framebuffer f) := by
  have hread : Framebuffer.read? ((framebuffer f).place o).payload = some f := f.read?_encode
  have htype : ((framebuffer f).place o).type = TagType.framebuffer := rfl
  unfold Tag.content
  rw [htype, if_neg (by decide), if_neg (by decide), if_neg (by decide), if_pos rfl, hread]

end DraftTag

/-! ## the walk over a draft -/

namespace DraftTag

/-- the tags of a draft, from an offset on -/
def layout (o : Nat) : List DraftTag → List Tag
  | [] => []
  | t :: ts => t.place o :: layout (o + align8 (tagHeaderSize + t.payload.length)) ts

theorem length_encode (t : DraftTag) :
    t.encode.length = align8 (tagHeaderSize + t.payload.length) := by
  have hle := le_align8 (tagHeaderSize + t.payload.length)
  unfold encode
  simp only [List.length_append, Bytes.length_le32, Bytes.length_zeros]
  rw [tagHeaderSize] at *
  omega

theorem encode_eq {t : DraftTag} (h : t.declared = none) (o : Nat) :
    t.encode = (t.place o).encode
      ++ Bytes.zeros (align8 (t.place o).size - (t.place o).size) := by
  have hsize : t.size = UInt32.ofNat (t.place o).size := by
    unfold size
    rw [h]
    rfl
  unfold encode Tag.encode
  rw [hsize]
  rfl

/-- the tags are read back where they were laid out -/
theorem tagsFrom_layout {tail : Bytes} (hend : ∀ o, (Lookup.front tail o).tag? = none)
    {ts : List DraftTag} (hplain : ∀ t ∈ ts, t.declared = none)
    (htype : ∀ t ∈ ts, t.type ≠ TagType.stop) :
    ∀ o, (ts.flatMap encode).length < 0x100000000 →
      tagsFrom (ts.flatMap encode ++ tail) o = layout o ts := by
  induction ts with
  | nil =>
    intro o _
    exact tagsFrom_of_none (hend o)
  | cons t ts ih =>
    intro o hlen
    have hle := le_align8 (t.place o).size
    rw [List.flatMap_cons, List.length_append, t.length_encode] at hlen
    have hsize : (t.place o).size < 0x100000000 := Nat.lt_of_le_of_lt hle (by
      show align8 (tagHeaderSize + t.payload.length) < _
      omega)
    have hpad : ((Bytes.zeros (align8 (t.place o).size - (t.place o).size))
        ++ (ts.flatMap encode ++ tail)).drop (align8 (t.place o).size - (t.place o).size)
        = ts.flatMap encode ++ tail := List.drop_left' (Bytes.length_zeros _)
    -- the walk reads the tag and passes over its padding, so that the rest starts the next round
    rw [List.flatMap_cons, encode_eq (hplain t (List.mem_cons_self ..)) o, List.append_assoc,
      List.append_assoc]
    show tagsFrom _ (t.place o).offset = _
    rw [tagsFrom_encode (htype t (List.mem_cons_self ..)) hsize, hpad,
      ih (fun u hu => hplain u (List.mem_cons_of_mem _ hu))
        (fun u hu => htype u (List.mem_cons_of_mem _ hu)) _ (by omega)]
    rfl

theorem getElem?_layout {ts : List DraftTag} {i : Nat} {t : DraftTag} (h : ts[i]? = some t) :
    ∀ o, ∃ o', (layout o ts)[i]? = some (t.place o') := by
  induction ts generalizing i with
  | nil => cases h
  | cons u ts ih =>
    intro o
    cases i with
    | zero =>
      cases h
      exact ⟨o, rfl⟩
    | succ i => exact ih h _

theorem plain_layout {ts : List DraftTag} (hplain : ∀ t ∈ ts, t.declared = none) :
    ∀ o, ((layout o ts).map fun t => plain t.type t.payload) = ts := by
  induction ts with
  | nil => exact fun _ => rfl
  | cons t ts ih =>
    intro o
    have ht : plain t.type t.payload = t := by
      rw [plain, ← hplain t (List.mem_cons_self ..)]
    rw [layout, List.map_cons, ih fun u hu => hplain u (List.mem_cons_of_mem _ hu)]
    exact congrArg (· :: ts) ht

end DraftTag

/-! ## whole drafts -/

namespace Draft

theorem front_closing (closed : Bool) (o : Nat) :
    (Lookup.front (if closed then closing else []) o).tag? = none := by
  cases closed <;> rfl

theorem length_encode (dr : Draft) : dr.encode.length = Descriptor.headerSize + dr.body.length := by
  unfold encode
  rw [List.length_append, List.length_append, Bytes.length_le32, Bytes.length_zeros]
  rfl

/-- what a descriptor tells of the draft that it was written from -/
structure ReadBack (dr : Draft) (d : Descriptor) : Prop where
  bytes : d.bytes = dr.encode
  parse : Descriptor.parse dr.encode = .ok d
  total : ∃ n, Descriptor.peekTotal? dr.encode = some n ∧ n.toNat = dr.encode.length
  /-- all tags, in order, each at the first multiple of eight behind the one in front of it -/
  tags : d.tags = DraftTag.layout Descriptor.headerSize dr.tags
  cmdline : ∀ (i : Nat) text, '\x00' ∉ text.toList → dr.tags[i]? = some (.cmdline text) →
    d.tags[i]?.map Tag.content = some (.ok (.cmdline text))
  module : ∀ (i : Nat) m, '\x00' ∉ m.label.toList → dr.tags[i]? = some (.module m) →
    d.tags[i]?.map Tag.content = some (.ok (.module m))
  memoryMap : ∀ (i : Nat) entrySize es, MemoryEntry.wireSize ≤ entrySize.toNat →
    dr.tags[i]? = some (.memoryMap entrySize es) →
    ∃ m, d.tags[i]?.map Tag.content = some (.ok (.memoryMap m)) ∧ m.entrySize = entrySize
      ∧ m.entries.map MemoryEntry.fields = es.map MemoryEntry.fields
  framebuffer : ∀ (i : Nat) f, dr.tags[i]? = some (.framebuffer f) →
    d.tags[i]?.map Tag.content = some (.ok (.framebuffer f))
  acpiOld : ∀ (i : Nat) p, dr.tags[i]? = some (.acpiOld p) →
    d.tags[i]?.map Tag.content = some (.ok (.acpiOld p))
  acpiNew : ∀ (i : Nat) p, dr.tags[i]? = some (.acpiNew p) →
    d.tags[i]?.map Tag.content = some (.ok (.acpiNew p))
  /-- types and payloads are enough to write the same bytes again -/
  rewritten : encode ⟨d.tags.map fun t => .plain t.type t.payload, dr.closed⟩ = dr.encode

theorem peekTotal?_encode {dr : Draft} (hlen : dr.encode.length < 0x100000000) :
    ∃ n, Descriptor.peekTotal? dr.encode = some n ∧ n.toNat = dr.encode.length := by
  refine ⟨UInt32.ofNat (Descriptor.headerSize + dr.body.length), ?_, ?_⟩
  · have hnil : ([] : Bytes).length = 0 := rfl
    unfold encode Descriptor.peekTotal?
    rw [List.append_assoc]
    exact Bytes.u32At?_append hnil
  · rw [length_encode] at hlen ⊢
    rw [UInt32.toNat_ofNat', Nat.mod_eq_of_lt hlen]

theorem tags_encode {dr : Draft} (hplain : ∀ t ∈ dr.tags, t.declared = none)
    (htype : ∀ t ∈ dr.tags, t.type ≠ TagType.stop) (hlen : dr.encode.length < 0x100000000) :
    Descriptor.tags ⟨dr.encode⟩ = DraftTag.layout Descriptor.headerSize dr.tags := by
  have hdrop : dr.encode.drop Descriptor.headerSize = dr.body := by
    unfold encode
    exact List.drop_left' (by rw [List.length_append, Bytes.length_le32, Bytes.length_zeros]; rfl)
  rw [length_encode, body, List.length_append] at hlen
  unfold Descriptor.tags
  rw [hdrop]
  exact DraftTag.tagsFrom_layout (front_closing _) hplain htype _ (by omega)

/-- **A descriptor is read as it was written.** -/
theorem readBack_encode {dr : Draft} (hplain : ∀ t ∈ dr.tags, t.declared = none)
    (htype : ∀ t ∈ dr.tags, t.type ≠ TagType.stop) (hlen : dr.encode.length < 0x100000000) :
    dr.ReadBack ⟨dr.encode⟩ := by
  have htotal := peekTotal?_encode hlen
  have htags := tags_encode hplain htype hlen
  have hcontent : ∀ (i : Nat) t c, dr.tags[i]? = some t → (∀ o, (t.place o).content = .ok c) →
      (Descriptor.tags ⟨dr.encode⟩)[i]?.map Tag.content = some (.ok c) := by
    intro i t c hi hc
    obtain ⟨o, ho⟩ := DraftTag.getElem?_layout hi Descriptor.headerSize
    rw [htags, ho, Option.map_some, hc]
  refine ⟨rfl, (Descriptor.parse_self_iff _).mpr ⟨?_, htotal⟩, htotal, htags, ?_, ?_, ?_, ?_, ?_, ?_, ?_⟩
  · show _ ≤ dr.encode.length
    rw [length_encode]
    exact Nat.le_add_right ..
  · exact fun i text hs hi => hcontent i _ _ hi fun o => DraftTag.content_cmdline o hs
  · exact fun i m hs hi => hcontent i _ _ hi fun o => DraftTag.content_module o hs
  · intro i entrySize es hwide hi
    obtain ⟨o, ho⟩ := DraftTag.getElem?_layout hi Descriptor.headerSize
    obtain ⟨m, hm, hrest⟩ := DraftTag.content_memoryMap o hwide es
    exact ⟨m, by rw [htags, ho, Option.map_some, hm], hrest⟩
  · exact fun i f hi => hcontent i _ _ hi fun o => DraftTag.content_framebuffer o f
  · exact fun i p hi => hcontent i _ _ hi fun _ => rfl
  · exact fun i p hi => hcontent i _ _ hi fun _ => rfl
  · rw [htags, DraftTag.plain_layout hplain]

/-- one tag of each kind, a wide stride, a kind known by its number only, and no closing tag -/
def sampleDraft : Draft :=
  ⟨[.cmdline "größe=1", .module ⟨0x1000, 0x1FFF, "kernel"⟩,
    .memoryMap 28 [⟨.ofUInt32 0x1000, 0x2000, .unknown 1⟩, ⟨.top, 1, .acpiNvs⟩],
    .framebuffer ⟨.ofUInt32 0xA0000, 320, 320, 200, 8, 1⟩, .acpiOld ⟨RootPointer.signature⟩,
    .acpiNew ⟨[]⟩, .plain 7 [1, 2, 3]], false⟩

theorem sampleDraft_readBack : (∀ t ∈ sampleDraft.tags, t.declared = none)
    ∧ (∀ t ∈ sampleDraft.tags, t.type ≠ TagType.stop) ∧ sampleDraft.encode.length < 0x100000000
    ∧ sampleDraft.ReadBack ⟨sampleDraft.encode⟩
    ∧ (Descriptor.tags ⟨sampleDraft.encode⟩).map Tag.offset = [8, 32, 56, 128, 160, 176, 184] := by
  have hplain : ∀ t ∈ sampleDraft.tags, t.declared = none := by decide +kernel
  have htype : ∀ t ∈ sampleDraft.tags, t.type ≠ TagType.stop := by decide +kernel
  have hlen : sampleDraft.encode.length < 0x100000000 := by decide +kernel
  have hback := readBack_encode hplain htype hlen
  refine ⟨hplain, htype, hlen, hback, ?_⟩
  rw [hback.tags]
  decide +kernel

end Draft

end ChainBoot
