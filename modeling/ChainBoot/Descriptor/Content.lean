import ChainBoot.Descriptor
import ChainBoot.MemoryMap
import ChainBoot.Framebuffer

/-!
# What tags say

`Tag.content` decodes a payload by the type of its tag.  The lists `memoryMaps`, `memoryEntries`,
`framebuffers` and `modules` collect the tags of one type over the walk and leave out those that
do not decode; `cmdline?` is the first command line.
-/

namespace ChainBoot

/-- a boot module: the bytes from `first` to `last`, both included, and its label -/
structure BootModule where
  first : UInt32
  last : UInt32
  label : String
deriving DecidableEq, Repr

def BootModule.range (m : BootModule) : Range := .inclusive (.ofUInt32 m.first) (.ofUInt32 m.last)

/-- a copy of the firmware's root pointer -/
structure RootPointer where
  bytes : Bytes
deriving DecidableEq, Repr

/-- the eight letters that a root pointer starts with -/
def RootPointer.signature : Bytes := [0x52, 0x53, 0x44, 0x20, 0x50, 0x54, 0x52, 0x20]

def RootPointer.signed (p : RootPointer) : Bool := p.bytes.take 8 == signature

inductive Content where
  | cmdline (text : String)
  | module (m : BootModule)
  | memoryMap (m : MemoryMap)
  | framebuffer (f : Framebuffer)
  | acpiOld (p : RootPointer)
  | acpiNew (p : RootPointer)
  | invalid
  | other (type : UInt32)
deriving DecidableEq

/-! ## decoding -/

def BootModule.read? (payload : Bytes) : Option BootModule := do
  let first ← payload.u32At? 0
  let last ← payload.u32At? 4
  return ⟨first, last, Bytes.cString (payload.drop 8)⟩

namespace Tag

/-- the payload does not hold the fields that the type calls for -/
def truncated (t : Tag) : DescriptorError := .truncatedTag t.type t.offset

def memoryMap (t : Tag) : Except DescriptorError MemoryMap :=
  match t.payload.u32At? 0, t.payload.u32At? 4 with
  | some entrySize, some version =>
    if h : MemoryEntry.wireSize ≤ entrySize.toNat then
      .ok ⟨entrySize, version, t.payload.drop 8, h⟩
    else .error (.badEntrySize entrySize)
  | _, _ => .error t.truncated

def content (t : Tag) : Except DescriptorError Content :=
  if t.type = TagType.cmdline then .ok (.cmdline (Bytes.cString t.payload))
  else if t.type = TagType.module then
    match BootModule.read? t.payload with
    | some m => .ok (.module m)
    | none => .error t.truncated
  else if t.type = TagType.memoryMap then t.memoryMap.map .memoryMap
  else if t.type = TagType.framebuffer then
    match Framebuffer.read? t.payload with
    | some f => .ok (.framebuffer f)
    | none => .error t.truncated
  else if t.type = TagType.acpiOld then .ok (.acpiOld ⟨t.payload⟩)
  else if t.type = TagType.acpiNew then .ok (.acpiNew ⟨t.payload⟩)
  else if t.type = TagType.invalid then .ok .invalid
  else .ok (.other t.type)

def memoryMap? (t : Tag) : Option MemoryMap :=
  match t.content with
  | .ok (.memoryMap m) => some m
  | _ => none

def framebuffer? (t : Tag) : Option Framebuffer :=
  match t.content with
  | .ok (.framebuffer f) => some f
  | _ => none

/-- the module and the offset of its tag -/
def module? (t : Tag) : Option (Nat × BootModule) :=
  match t.content with
  | .ok (.module m) => some (t.offset, m)
  | _ => none

def isCmdline (t : Tag) : Bool := t.type == TagType.cmdline

end Tag

/-! ## the tags of one type -/

namespace Descriptor

def memoryMaps (d : Descriptor) : List MemoryMap := d.tags.filterMap Tag.memoryMap?

/-- the entries of all memory maps, one map behind the other -/
def memoryEntries (d : Descriptor) : List MemoryEntry := d.memoryMaps.flatMap MemoryMap.entries

def framebuffers (d : Descriptor) : List Framebuffer := d.tags.filterMap Tag.framebuffer?

/-- the modules with the offsets of their tags -/
def modules (d : Descriptor) : List (Nat × BootModule) := d.tags.filterMap Tag.module?

def cmdline? (d : Descriptor) : Option String :=
  (d.tags.find? Tag.isCmdline).map fun t => Bytes.cString t.payload

end Descriptor

end ChainBoot
