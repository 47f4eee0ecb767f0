import ChainBoot.Proofs.Chain
import ChainBoot.Proofs.Modules

/-!
# Edits of a buffer in place

An edit of the descriptor at the front of a buffer writes a few words one behind the other,
`Edit.inPlace`.  There is room for all of them once its target is found, so that it never stops
halfway: `inPlace_eq` says that the words are written as one piece, `framed` that no other byte
changes, and that a refused edit changes none at all.

On the list of tags an edit is the exchange of one element (`EditedAt`).  In particular the two
tests of a module agree: an edit looks at the declared size, `Descriptor.modules` at the length of
the payload (`moduleToEdit_iff`).

* `edits_inPlace`    both for every descriptor that is accepted.
-/

namespace ChainBoot

/-! ## words one behind the other -/

namespace Bytes

/-- a word in place of the four bytes at an offset, if they are there -/
def put32? (bs : Bytes) (off : Nat) (v : UInt32) : Option Bytes :=
  if off + 4 ≤ bs.length then some (bs.overwrite off (le32 v)) else none

/-- words one behind the other, up to the first one without room: the bytes afterwards, and whether
all words were written -/
def putWords (bs : Bytes) (off : Nat) : List UInt32 → Bytes × Bool
  | [] => (bs, true)
  | w :: ws =>
    match bs.put32? off w with
    | none => (bs, false)
    | some bs' => putWords bs' (off + 4) ws

theorem putWords_eq (ws : List UInt32) : ∀ {bs : Bytes} {off : Nat},
    off + 4 * ws.length ≤ bs.length →
      bs.putWords off ws = (bs.overwrite off (ws.flatMap le32), true) := by
  induction ws with
  | nil =>
    intro bs off _
    unfold overwrite
    rw [List.flatMap_nil, List.append_nil, List.length_nil, Nat.add_zero, List.take_append_drop]
    rfl
  | cons w ws ih =>
    intro bs off h
    rw [List.length_cons] at h
    have hroom : off + (le32 w).length ≤ bs.length := by
      rw [length_le32]
      omega
    have hput : bs.put32? off w = some (bs.overwrite off (le32 w)) := if_pos hroom
    have hrest : off + 4 + 4 * ws.length ≤ (bs.overwrite off (le32 w)).length := by
      rw [length_overwrite hroom]
      omega
    -- the rest goes behind the first word, into a buffer of the same length
    have hjoin := overwrite_overwrite (a := le32 w) (b := ws.flatMap le32) (Nat.le_of_add_right_le hroom)
    rw [length_le32] at hjoin
    rw [putWords, hput]
    dsimp only
    rw [ih hrest, hjoin, List.flatMap_cons]

end Bytes

/-! ## buffers with a descriptor at the front -/

namespace Descriptor

variable {bs : Bytes} {d : Descriptor} {f : Descriptor → Except DescriptorError Descriptor}

theorem append_of_parse (h : parse bs = .ok d) : d.bytes ++ bs.drop d.size = bs := by
  obtain ⟨-, -, -, hd⟩ := parse_inv h
  have hbytes : d.bytes = bs.take d.size := congrArg Descriptor.bytes hd
  rw [hbytes, List.take_append_drop]

/-- what is parsed ends where it says -/
theorem parse_append (h : parse d.bytes = .ok d) (tail : Bytes) : parse (d.bytes ++ tail) = .ok d :=
  parse_congr h ((List.take_left' rfl).trans List.take_length.symm)

theorem parse_bytes (h : parse bs = .ok d) : parse d.bytes = .ok d := by
  obtain ⟨-, -, -, hd⟩ := parse_inv h
  refine parse_congr h (List.take_length.trans ?_)
  exact congrArg Descriptor.bytes hd

theorem editPrefix_of_error (h : parse bs = .ok d) {err : DescriptorError} (hf : f d = .error err) :
    editPrefix bs f = (bs, .error err) := by
  unfold editPrefix
  rw [h]
  dsimp only
  rw [hf]

section
variable (h : parse bs = .ok d) {off : Nat} {new : Bytes} (hroom : off + new.length ≤ d.size)
include h hroom

theorem overwrite_of_parse : (d.overwrite off new).bytes ++ bs.drop d.size = bs.overwrite off new := by
  unfold overwrite
  dsimp only
  rw [← Bytes.overwrite_append_left hroom, append_of_parse h]

theorem editPrefix_of_overwrite (hf : f d = .ok (d.overwrite off new)) :
    editPrefix bs f = (bs.overwrite off new, .ok ()) := by
  unfold editPrefix
  rw [h]
  dsimp only
  rw [hf]
  dsimp only
  rw [overwrite_of_parse h hroom]

theorem parse_buffer_overwrite (hlo : headerSize ≤ off) :
    parse (bs.overwrite off new) = .ok (d.overwrite off new) := by
  rw [← overwrite_of_parse h hroom]
  exact parse_append (parse_overwrite (parse_bytes h) hlo hroom) _

end

end Descriptor

/-! ## the edits -/

/-- an edit of one tag -/
inductive Edit where
  | invalidate
  | setRange (first last : UInt32)
  | toCmdline
deriving DecidableEq, Repr

namespace Edit

open Descriptor

/-- the edit of a descriptor -/
def apply : Edit → (offset : Nat) → Descriptor → Except DescriptorError Descriptor
  | invalidate, offset, d => d.invalidate offset
  | setRange first last, offset, d => d.setModuleRange offset first last
  | toCmdline, offset, d => d.moduleToCmdline offset

/-- the tag that has to stand at the offset -/
def target : Edit → Descriptor → (offset : Nat) → Except DescriptorError Tag
  | invalidate, d, offset => d.tagToEdit offset
  | setRange _ _, d, offset => d.moduleToEdit offset
  | toCmdline, d, offset => d.moduleToEdit offset

/-- where the bytes start that are written -/
def start : Edit → (offset : Nat) → Nat
  | invalidate, offset => offset
  | setRange _ _, offset => offset + tagHeaderSize
  | toCmdline, offset => offset

/-- how many bytes are written -/
def width : Edit → Nat
  | invalidate => 4
  | setRange _ _ => 8
  | toCmdline => 16

/-- the words that are written over a tag of the given size -/
def words : Edit → (size : Nat) → List UInt32
  | invalidate, _ => [TagType.invalid]
  | setRange first last, _ => [first, last]
  | toCmdline, size => [TagType.invalid, UInt32.ofNat tagHeaderSize, TagType.cmdline,
      UInt32.ofNat (size - tagHeaderSize)]

/-- the same as one piece -/
def bytes : Edit → (size : Nat) → Bytes
  | invalidate, _ => Bytes.le32 TagType.invalid
  | setRange first last, _ => Bytes.le32 first ++ Bytes.le32 last
  | toCmdline, size => splitHeaders size

/-- the edit in place, word by word: the buffer afterwards, and why the edit was refused if it was.
Without room for a word the ones in front of it would stay. -/
def inPlace (e : Edit) (bs : Bytes) (offset : Nat) : Bytes × Except DescriptorError Unit :=
  match parse bs with
  | .error err => (bs, .error err)
  | .ok d =>
    match e.target d offset with
    | .error err => (bs, .error err)
    | .ok t =>
      match d.bytes.putWords (e.start offset) (e.words t.size) with
      | (front, true) => (front ++ bs.drop d.size, .ok ())
      | (front, false) => (front ++ bs.drop d.size, .error (.noTagAt offset))

variable {bs : Bytes} {d : Descriptor} {t : Tag} {o : Nat} (e : Edit)

theorem length_words (size : Nat) : 4 * (e.words size).length = e.width := by
  cases e <;> rfl

theorem flatMap_words (size : Nat) : (e.words size).flatMap Bytes.le32 = e.bytes size := by
  cases e <;> rfl

theorem length_bytes (size : Nat) : (e.bytes size).length = e.width := by
  cases e <;> rfl

theorem apply_eq :
    e.apply o d = (e.target d o).map fun t => d.overwrite (e.start o) (e.bytes t.size) := by
  cases e <;> rfl

theorem room_of_target (h : e.target d o = .ok t) : e.start o + e.width ≤ d.size := by
  cases e with
  | invalidate =>
    obtain ⟨hlo, hhi⟩ := size_of_tagToEdit h
    rw [tagHeaderSize] at hlo
    show o + 4 ≤ d.size
    omega
  | setRange first last =>
    obtain ⟨htag, -, hsize⟩ := moduleToEdit_inv h
    obtain ⟨-, hhi⟩ := size_of_tagToEdit htag
    show o + tagHeaderSize + 8 ≤ d.size
    omega
  | toCmdline =>
    obtain ⟨htag, -, hsize⟩ := moduleToEdit_inv h
    obtain ⟨-, hhi⟩ := size_of_tagToEdit htag
    rw [tagHeaderSize] at hsize
    show o + 16 ≤ d.size
    omega

/-- **An edit in place is never left halfway.** -/
theorem inPlace_eq (bs : Bytes) (o : Nat) : e.inPlace bs o = editPrefix bs (e.apply o) := by
  unfold inPlace editPrefix
  cases hp : parse bs with
  | error err => rfl
  | ok d =>
    dsimp only
    rw [apply_eq]
    cases ht : e.target d o with
    | error err => rfl
    | ok t =>
      have hroom : e.start o + 4 * (e.words t.size).length ≤ d.bytes.length := by
        rw [e.length_words]
        exact e.room_of_target ht
      dsimp only
      rw [Bytes.putWords_eq _ hroom, e.flatMap_words]
      rfl

/-- the frame of an edit: one that is refused changes nothing, and one that is done changes no byte
but those that it writes, all of which are part of the descriptor -/
structure Framed (bs : Bytes) (d : Descriptor) (o : Nat) (out : Bytes × Except DescriptorError Unit) :
    Prop where
  refused : ∀ err, out.2 = .error err → out.1 = bs
  room : out.2 = .ok () → e.start o + e.width ≤ d.size
  length : out.1.length = bs.length
  outside : ∀ j, ¬ (e.start o ≤ j ∧ j < e.start o + e.width) → out.1[j]? = bs[j]?
  behind : out.1.drop d.size = bs.drop d.size

theorem framed_refused (bs : Bytes) (d : Descriptor) (o : Nat) (err : DescriptorError) :
    e.Framed bs d o (bs, .error err) where
  refused := fun _ _ => rfl
  room := fun h => by cases h
  length := rfl
  outside := fun _ _ => rfl
  behind := rfl

theorem framed_overwrite {new : Bytes} (hnew : new.length = e.width) (hhi : d.size ≤ bs.length)
    (hroom : e.start o + e.width ≤ d.size) :
    e.Framed bs d o (bs.overwrite (e.start o) new, .ok ()) := by
  have hfits : e.start o + new.length ≤ bs.length := by omega
  exact {
    refused := fun _ h => by cases h
    room := fun _ => hroom
    length := Bytes.length_overwrite hfits
    outside := fun j hj => by
      rw [Bytes.getElem?_overwrite hfits, if_neg (by rw [hnew]; exact hj)]
    behind := Bytes.drop_overwrite_of_le hfits (by rw [hnew]; exact hroom) }

theorem editPrefix_of_refused (h : parse bs = .ok d) {err : DescriptorError}
    (ht : e.target d o = .error err) : editPrefix bs (e.apply o) = (bs, .error err) := by
  refine editPrefix_of_error h ?_
  rw [apply_eq, ht]
  rfl

theorem editPrefix_of_target (h : parse bs = .ok d) (ht : e.target d o = .ok t) :
    editPrefix bs (e.apply o) = (bs.overwrite (e.start o) (e.bytes t.size), .ok ()) := by
  refine editPrefix_of_overwrite h ?_ ?_
  · rw [e.length_bytes]
    exact e.room_of_target ht
  · rw [apply_eq, ht]
    rfl

theorem framed (h : parse bs = .ok d) (o : Nat) : e.Framed bs d o (e.inPlace bs o) := by
  obtain ⟨-, -, hhi, -⟩ := parse_inv h
  rw [inPlace_eq]
  cases ht : e.target d o with
  | error err =>
    rw [e.editPrefix_of_refused h ht]
    exact e.framed_refused bs d o err
  | ok t =>
    rw [e.editPrefix_of_target h ht]
    exact e.framed_overwrite (e.length_bytes t.size) hhi (e.room_of_target ht)

theorem editPrefix_iff (h : parse bs = .ok d) :
    (editPrefix bs (e.apply o)).2 = .ok () ↔ ∃ t, e.target d o = .ok t := by
  cases ht : e.target d o with
  | error err =>
    rw [e.editPrefix_of_refused h ht]
    constructor
    · intro hok
      cases hok
    · rintro ⟨t, ht⟩
      cases ht
  | ok t =>
    rw [e.editPrefix_of_target h ht]
    exact ⟨fun _ => ⟨t, rfl⟩, fun _ => rfl⟩

end Edit

/-! ## what the edits make of the walk -/

namespace Descriptor

variable {bs : Bytes} {d : Descriptor} {t : Tag} {pre post : List Tag}

/-- an edit succeeds, and what is parsed afterwards is the second descriptor -/
def Yields (bs : Bytes) (f : Descriptor → Except DescriptorError Descriptor) (d' : Descriptor) : Prop :=
  ∃ bs', editPrefix bs f = (bs', .ok ()) ∧ parse bs' = .ok d'

/-- the edits of one tag of the walk `pre ++ t :: post` -/
structure EditedAt (bs : Bytes) (d : Descriptor) (pre : List Tag) (t : Tag) (post : List Tag) :
    Prop where
  invalidate : ∃ d', Yields bs (·.invalidate t.offset) d'
    ∧ d'.tags = pre ++ { t with type := TagType.invalid } :: post
  setRange_iff : ∀ first last, (editPrefix bs (·.setModuleRange t.offset first last)).2 = .ok ()
    ↔ t.offset ∈ d.modules.map Prod.fst
  toCmdline_iff : (editPrefix bs (·.moduleToCmdline t.offset)).2 = .ok ()
    ↔ t.offset ∈ d.modules.map Prod.fst
  /-- where the module stands in the list -/
  listed : ∀ m, (t.offset, m) ∈ d.modules →
    d.modules = pre.filterMap Tag.module? ++ (t.offset, m) :: post.filterMap Tag.module?
  setRange : ∀ m, (t.offset, m) ∈ d.modules → ∀ first last,
    ∃ d', Yields bs (·.setModuleRange t.offset first last) d'
      ∧ d'.tags = pre ++ t.withRange first last :: post
      ∧ (t.withRange first last).size = t.size
      ∧ d'.modules = pre.filterMap Tag.module?
          ++ (t.offset, { m with first := first, last := last }) :: post.filterMap Tag.module?
  toCmdline : ∀ m, (t.offset, m) ∈ d.modules →
    ∃ d', Yields bs (·.moduleToCmdline t.offset) d'
      ∧ d'.tags = pre ++ t.split ++ post
      ∧ t.split.map Tag.slot = [(t.offset, 8), (t.offset + 8, t.size - 8)]
      ∧ d'.modules = pre.filterMap Tag.module? ++ post.filterMap Tag.module?
      ∧ t.split.map Tag.content = [.ok .invalid, .ok (.cmdline m.label)]
      ∧ ((∀ u ∈ pre, u.isCmdline = false) → d'.cmdline? = some m.label)

theorem yields_of_target (e : Edit) (h : parse bs = .ok d) (hmem : t ∈ d.tags)
    (ht : e.target d t.offset = .ok t) : Yields bs (e.apply t.offset)
      (d.overwrite (e.start t.offset) (e.bytes t.size)) := by
  obtain ⟨hlo, -, -⟩ := bounds_of_mem_tags hmem
  refine ⟨_, e.editPrefix_of_target h ht, parse_buffer_overwrite h ?_ ?_⟩
  · rw [e.length_bytes]
    exact e.room_of_target ht
  · cases e with
    | setRange first last => exact Nat.le_add_right_of_le hlo
    | invalidate => exact hlo
    | toCmdline => exact hlo

theorem module?_of_mem_modules {m : BootModule} (ht : t ∈ d.tags) (h : (t.offset, m) ∈ d.modules) :
    t.module? = some (t.offset, m) := by
  obtain ⟨u, hu, hm⟩ := (mem_modules_iff _).mp h
  obtain ⟨-, ho, -⟩ := (Tag.module?_eq_some_iff _).mp hm
  obtain rfl := offset_inj ht hu ho
  exact hm

/-- **The test of an edit and the list of the modules agree.** -/
theorem moduleToEdit_iff (ht : t ∈ d.tags) :
    (∃ u, d.moduleToEdit t.offset = .ok u) ↔ t.offset ∈ d.modules.map Prod.fst := by
  constructor
  · rintro ⟨u, hu⟩
    obtain ⟨htag, htype, hsize⟩ := moduleToEdit_inv hu
    rw [tagToEdit_of_mem ht] at htag
    cases htag
    have hpay : 8 ≤ t.payload.length := by
      unfold Tag.size at hsize
      omega
    obtain ⟨m, hm⟩ := BootModule.exists_read? hpay
    refine List.mem_map.mpr ⟨(t.offset, m), (mem_modules_iff _).mpr ⟨t, ht, ?_⟩, rfl⟩
    exact (Tag.module?_eq_some_iff _).mpr ⟨htype, rfl, hm⟩
  · intro h
    obtain ⟨⟨o, m⟩, hmem, ho⟩ := List.mem_map.mp h
    obtain rfl : o = t.offset := ho
    exact ⟨t, moduleToEdit_of_mem ht (module?_of_mem_modules ht hmem)⟩

theorem mem_tags_of_eq (h : d.tags = pre ++ t :: post) : t ∈ d.tags := by
  rw [h]
  exact List.mem_append_right _ (List.mem_cons_self ..)

theorem exists_invalidate (h : parse bs = .ok d) (htags : d.tags = pre ++ t :: post) :
    ∃ d', Yields bs (·.invalidate t.offset) d'
      ∧ d'.tags = pre ++ { t with type := TagType.invalid } :: post := by
  have hmem := mem_tags_of_eq htags
  refine ⟨_, yields_of_target .invalidate h hmem (tagToEdit_of_mem hmem), ?_⟩
  show tags ⟨d.bytes.overwrite t.offset (Bytes.le32 TagType.invalid)⟩ = _
  rw [tags_retype hmem (by decide), ← map_replace htags]
  refine List.map_congr_left fun u hu => ?_
  split
  · rename_i ho
    rw [offset_inj hu hmem ho]
  · rfl

section
variable {m : BootModule} (h : parse bs = .ok d) (htags : d.tags = pre ++ t :: post)
  (hm : t.module? = some (t.offset, m))
include htags hm

theorem modules_eq_of_tags :
    d.modules = pre.filterMap Tag.module? ++ (t.offset, m) :: post.filterMap Tag.module? := by
  unfold modules
  rw [htags, List.filterMap_append, List.filterMap_cons_some hm]

include h

theorem exists_setRange (first last : UInt32) :
    ∃ d', Yields bs (·.setModuleRange t.offset first last) d'
      ∧ d'.tags = pre ++ t.withRange first last :: post
      ∧ (t.withRange first last).size = t.size
      ∧ d'.modules = pre.filterMap Tag.module?
          ++ (t.offset, { m with first := first, last := last }) :: post.filterMap Tag.module? := by
  have hmem := mem_tags_of_eq htags
  obtain ⟨-, -, hread⟩ := (Tag.module?_eq_some_iff _).mp hm
  have hpay := BootModule.length_of_read? hread
  have hnew := (tags_withRange hmem hpay first last).trans (map_replace htags _)
  refine ⟨_, yields_of_target (.setRange first last) h hmem (moduleToEdit_of_mem hmem hm), hnew,
    Tag.size_withRange hpay first last, ?_⟩
  exact modules_eq_of_tags (t := t.withRange first last) hnew (Tag.module?_withRange hm first last)

theorem exists_toCmdline :
    ∃ d', Yields bs (·.moduleToCmdline t.offset) d'
      ∧ d'.tags = pre ++ t.split ++ post
      ∧ t.split.map Tag.slot = [(t.offset, 8), (t.offset + 8, t.size - 8)]
      ∧ d'.modules = pre.filterMap Tag.module? ++ post.filterMap Tag.module?
      ∧ t.split.map Tag.content = [.ok .invalid, .ok (.cmdline m.label)]
      ∧ ((∀ u ∈ pre, u.isCmdline = false) → d'.cmdline? = some m.label) := by
  have hmem := mem_tags_of_eq htags
  obtain ⟨-, -, hread⟩ := (Tag.module?_eq_some_iff _).mp hm
  obtain ⟨-, hlabel⟩ := (BootModule.read?_eq_some_iff ..).mp hread
  have hpay := BootModule.length_of_read? hread
  -- the walk falls in with the old one again behind the padding of the split tag
  have hnew := (tags_split hmem hpay).trans (flatMap_replace htags _)
  refine ⟨_, yields_of_target .toCmdline h hmem (moduleToEdit_of_mem hmem hm), hnew, ?_, ?_, ?_,
    fun hclean => ?_⟩
  · have hrest : tagHeaderSize + (t.payload.drop 8).length = t.size - 8 := by
      unfold Tag.size
      rw [List.length_drop, tagHeaderSize]
      omega
    show [(t.offset, 8), (t.offset + 8, tagHeaderSize + (t.payload.drop 8).length)] = _
    rw [hrest]
  · show (tags (d.overwrite t.offset (splitHeaders t.size))).filterMap Tag.module? = _
    rw [hnew, List.filterMap_append, List.filterMap_append, Tag.filterMap_module?_split,
      List.append_nil]
  · rw [hlabel]
    rfl
  · rw [hlabel]
    refine cmdline?_of_split hnew fun u hu => ?_
    rw [hclean u hu]
    exact Bool.false_ne_true

end

/-- the three edits of a tag of the walk -/
theorem editedAt (h : parse bs = .ok d) (htags : d.tags = pre ++ t :: post) :
    EditedAt bs d pre t post := by
  have ht := mem_tags_of_eq htags
  exact {
    invalidate := exists_invalidate h htags
    setRange_iff := fun first last =>
      ((Edit.setRange first last).editPrefix_iff h).trans (moduleToEdit_iff ht)
    toCmdline_iff := (Edit.toCmdline.editPrefix_iff h).trans (moduleToEdit_iff ht)
    listed := fun _ hm => modules_eq_of_tags htags (module?_of_mem_modules ht hm)
    setRange := fun _ hm => exists_setRange h htags (module?_of_mem_modules ht hm)
    toCmdline := fun _ hm => exists_toCmdline h htags (module?_of_mem_modules ht hm) }

/-- **Edits in place are updates of the list of tags, and touch nothing else.**  The first part is
about every tag of the walk, the second about every offset whatsoever. -/
theorem edits_inPlace (h : parse bs = .ok d) :
    (∀ pre t post, d.tags = pre ++ t :: post → EditedAt bs d pre t post)
    ∧ ∀ (e : Edit) (o : Nat), e.inPlace bs o = editPrefix bs (e.apply o)
      ∧ e.Framed bs d o (e.inPlace bs o) :=
  ⟨fun _ _ _ htags => editedAt h htags, fun e o => ⟨e.inPlace_eq bs o, e.framed h o⟩⟩

/-- a module, a second tag, and eight bytes behind the descriptor -/
def sampleBuffer : Bytes :=
  List.flatMap Bytes.le32 [48, 0, 3, 20, 0x1000, 0x1FFF, 0x706B, 0, 7, 9, 0xAA, 0, 0xDEAD, 0xBEEF]

theorem sampleBuffer_edits : parse sampleBuffer = .ok ⟨sampleBuffer.take 48⟩
    ∧ (∃ d', Yields sampleBuffer (·.moduleToCmdline 8) d'
        ∧ d'.tags = [⟨8, TagType.invalid, []⟩, ⟨16, TagType.cmdline, [0x6B, 0x70, 0, 0]⟩, ⟨32, 7, [0xAA]⟩]
        ∧ d'.modules = [] ∧ d'.cmdline? = some "kp")
    ∧ Edit.toCmdline.Framed sampleBuffer ⟨sampleBuffer.take 48⟩ 8 (Edit.toCmdline.inPlace sampleBuffer 8)
    ∧ Edit.toCmdline.inPlace sampleBuffer 32 = (sampleBuffer, .error (.notAModule 7 32)) := by
  have h : parse sampleBuffer = .ok ⟨sampleBuffer.take 48⟩ := rfl
  have htags : tags ⟨sampleBuffer.take 48⟩
      = [⟨8, 3, [0, 0x10, 0, 0, 0xFF, 0x1F, 0, 0, 0x6B, 0x70, 0, 0]⟩, ⟨32, 7, [0xAA]⟩] := by
    decide +kernel
  have hmodules : modules ⟨sampleBuffer.take 48⟩ = [(8, ⟨0x1000, 0x1FFF, "kp"⟩)] := by
    unfold modules
    rw [htags]
    decide +kernel
  obtain ⟨hwalk, hframe⟩ := edits_inPlace h
  have hedited := hwalk [] _ _ htags
  obtain ⟨d', hyields, hnew, -, hleft, -, hcmdline⟩ := hedited.toCmdline ⟨0x1000, 0x1FFF, "kp"⟩ (by
    rw [hmodules]
    exact List.mem_singleton.mpr rfl)
  refine ⟨h, ⟨d', hyields, hnew, hleft.trans (by decide +kernel), hcmdline fun u hu => ?_⟩,
    (hframe .toCmdline 8).2, ?_⟩
  · cases hu
  · rw [(hframe .toCmdline 32).1]
    decide +kernel

end Descriptor

end ChainBoot
