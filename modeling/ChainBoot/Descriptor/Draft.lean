import ChainBoot.Descriptor.Content

/-!
# Writing a descriptor

A draft is a list of tags, each with its type and payload, and possibly a declared size that
differs from the true one.  `Draft.encode` lays the tags out on multiples of eight, with the tag
that ends the walk behind them or without it, and puts the total size in front.
-/

namespace ChainBoot

structure DraftTag where
  type : UInt32
  payload : Bytes
  /-- the size to declare; the true one if there is none -/
  declared : Option UInt32
deriving DecidableEq, Repr

namespace DraftTag

def plain (type : UInt32) (payload : Bytes) : DraftTag := ⟨type, payload, none⟩

def cmdline (text : String) : DraftTag := plain TagType.cmdline (Bytes.ofString text ++ [0])

def module (m : BootModule) : DraftTag :=
  plain TagType.module (Bytes.le32 m.first ++ Bytes.le32 m.last ++ Bytes.ofString m.label ++ [0])

/-- an entry filled up with zeros to the stride, or to its own size if that is more -/
def paddedEntry (stride : Nat) (e : MemoryEntry) : Bytes :=
  e.encode ++ Bytes.zeros (max stride MemoryEntry.wireSize - e.encode.length)

def memoryMap (entrySize : UInt32) (es : List MemoryEntry) : DraftTag :=
  plain TagType.memoryMap
    (Bytes.le32 entrySize ++ Bytes.le32 0 ++ es.flatMap (paddedEntry entrySize.toNat))

def framebuffer (f : Framebuffer) : DraftTag := plain TagType.framebuffer f.encode

def acpiOld (p : RootPointer) : DraftTag := plain TagType.acpiOld p.bytes

def acpiNew (p : RootPointer) : DraftTag := plain TagType.acpiNew p.bytes

def size (t : DraftTag) : UInt32 :=
  t.declared.getD (UInt32.ofNat (tagHeaderSize + t.payload.length))

/-- header, payload and padding -/
def encode (t : DraftTag) : Bytes :=
  Bytes.le32 t.type ++ Bytes.le32 t.size ++ t.payload
    ++ Bytes.zeros (align8 (tagHeaderSize + t.payload.length) - (tagHeaderSize + t.payload.length))

end DraftTag

structure Draft where
  tags : List DraftTag
  /-- with the tag that ends the walk -/
  closed : Bool
deriving DecidableEq, Repr

namespace Draft

/-- the tag that ends the walk -/
def closing : Bytes := Bytes.le32 TagType.stop ++ Bytes.le32 (UInt32.ofNat tagHeaderSize)

/-- all that follows the header -/
def body (dr : Draft) : Bytes :=
  dr.tags.flatMap DraftTag.encode ++ if dr.closed then closing else []

def encode (dr : Draft) : Bytes :=
  Bytes.le32 (UInt32.ofNat (Descriptor.headerSize + dr.body.length)) ++ Bytes.zeros 4 ++ dr.body

end Draft

end ChainBoot
