import ChainBoot.Bytes
import ChainBoot.Text.Hex

/-!
# Boot descriptors

A boot descriptor is a string of bytes: four bytes with its total size, four unused ones, and
then tags.  A tag starts on a multiple of eight with its type and its size, both four bytes; the
size counts these eight bytes and the payload, and the padding behind the payload is not counted.

* `Descriptor.parse`    the bytes up to the declared total size;
* `Descriptor.lookup`   what stands at an offset: a tag, or the reason why there is none;
* `Descriptor.tags`     the walk: from offset 8 on, each tag is followed by the one at the next
                        multiple of eight, until there is none.
-/

namespace ChainBoot

/-! ## tags -/

namespace TagType

/-- ends the walk -/
def stop : UInt32 := 0
def cmdline : UInt32 := 1
def module : UInt32 := 3
def memoryMap : UInt32 := 6
def framebuffer : UInt32 := 8
def acpiOld : UInt32 := 14
def acpiNew : UInt32 := 15
/-- a tag that was taken out in place -/
def invalid : UInt32 := 0xBAD

end TagType

/-- bytes in front of a payload -/
def tagHeaderSize : Nat := 8

/-- the least multiple of eight that is not below `n` -/
def align8 (n : Nat) : Nat := (n + 7) / 8 * 8

theorem le_align8 (n : Nat) : n ≤ align8 n := by unfold align8; omega
theorem dvd_align8 (n : Nat) : 8 ∣ align8 n := Nat.dvd_mul_left ..

/-- a tag and the offset of its header in the descriptor it was read from -/
structure Tag where
  offset : Nat
  type : UInt32
  payload : Bytes
deriving DecidableEq, Repr

namespace Tag

/-- the declared size -/
def size (t : Tag) : Nat := tagHeaderSize + t.payload.length

/-- the offset behind the payload -/
def stop (t : Tag) : Nat := t.offset + t.size

end Tag

/-! ## errors -/

inductive DescriptorError where
  | tooShort
  | badTotalSize (total : UInt32) (available : Nat)
  | truncatedTag (type : UInt32) (offset : Nat)
  | badEntrySize (size : UInt32)
  | noTagAt (offset : Nat)
  | notAModule (type : UInt32) (offset : Nat)
deriving DecidableEq, Repr

def DescriptorError.message : DescriptorError → String
  | .tooShort => "boot descriptor is shorter than its header"
  | .badTotalSize total available =>
    s!"boot descriptor declares {total.toNat} bytes but only {available} are readable"
  | .truncatedTag type offset =>
    s!"tag of type {type.toNat} at offset {Text.hex offset} is too short for its payload"
  | .badEntrySize size => s!"memory map entry size {size.toNat} is smaller than an entry"
  | .noTagAt offset => s!"no tag header at offset {Text.hex offset}"
  | .notAModule type offset =>
    s!"tag at offset {Text.hex offset} is not a module (type {type.toNat})"

/-! ## what stands at an offset -/

inductive Lookup where
  | tag (t : Tag)
  /-- no room for a tag header -/
  | outside
  /-- the tag that ends the walk -/
  | ended
  /-- the declared size does not even cover the header -/
  | undersized (type size : UInt32)
  /-- the declared size runs past the end of the descriptor -/
  | overrun (type size : UInt32)
deriving DecidableEq, Repr

def Lookup.tag? : Lookup → Option Tag
  | .tag t => some t
  | _ => none

/-- the tag at the front of `rest`, the bytes of a descriptor from `offset` on -/
def Lookup.front (rest : Bytes) (offset : Nat) : Lookup :=
  match rest.u32At? 0, rest.u32At? 4 with
  | some type, some size =>
    if type = TagType.stop then .ended
    else if size.toNat < tagHeaderSize then .undersized type size
    else match rest.window? 0 size.toNat with
      | none => .overrun type size
      | some w => .tag ⟨offset, type, w.drop tagHeaderSize⟩
  | _, _ => .outside

theorem Lookup.size_of_front {rest : Bytes} {offset : Nat} {t : Tag}
    (h : Lookup.front rest offset = .tag t) : tagHeaderSize ≤ t.size ∧ t.size ≤ rest.length := by
  refine ⟨Nat.le_add_right .., ?_⟩
  unfold Lookup.front at h
  split at h
  · split at h
    · cases h
    · split at h
      · cases h
      · rename_i hsize
        split at h
        · cases h
        · rename_i w hw
          have hlen := Bytes.length_of_window? hw
          obtain ⟨hle, -⟩ := (Bytes.window?_eq_some_iff ..).mp hw
          cases h
          show tagHeaderSize + (w.drop tagHeaderSize).length ≤ rest.length
          rw [List.length_drop]
          omega
  · cases h

/-- the tags from the front of `rest` on, the bytes of a descriptor from `offset` on -/
def tagsFrom (rest : Bytes) (offset : Nat) : List Tag :=
  match _h : Lookup.front rest offset with
  | .tag t => t :: tagsFrom (rest.drop (align8 t.size)) (offset + align8 t.size)
  | _ => []
termination_by rest.length
decreasing_by
  have hs := Lookup.size_of_front _h
  have ha := le_align8 t.size
  rw [tagHeaderSize] at hs
  rw [List.length_drop]
  omega

/-! ## descriptors -/

structure Descriptor where
  bytes : Bytes
deriving DecidableEq, Repr

namespace Descriptor

/-- bytes in front of the first tag -/
def headerSize : Nat := 8

/-- the total size that the first four bytes declare -/
def peekTotal? (bs : Bytes) : Option UInt32 := bs.u32At? 0

def parse (bs : Bytes) : Except DescriptorError Descriptor :=
  match peekTotal? bs with
  | none => .error .tooShort
  | some total =>
    if total.toNat < headerSize ∨ bs.length < total.toNat then
      .error (.badTotalSize total bs.length)
    else .ok ⟨bs.take total.toNat⟩

def size (d : Descriptor) : Nat := d.bytes.length

/-- what stands at an offset, a multiple of eight or not -/
def lookup (d : Descriptor) (offset : Nat) : Lookup := .front (d.bytes.drop offset) offset

def tagAt? (d : Descriptor) (offset : Nat) : Option Tag := (d.lookup offset).tag?

/-- the tag at the first multiple of eight behind `t` -/
def next? (d : Descriptor) (t : Tag) : Option Tag := d.tagAt? (align8 t.stop)

/-- all tags of the walk -/
def tags (d : Descriptor) : List Tag := tagsFrom (d.bytes.drop headerSize) headerSize

/-- the offset at which the walk finds no further tag -/
def stopOffset (d : Descriptor) : Nat :=
  match d.tags.getLast? with
  | none => headerSize
  | some t => align8 t.stop

end Descriptor

end ChainBoot
