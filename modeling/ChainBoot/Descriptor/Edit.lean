import ChainBoot.Descriptor

/-!
# Edits in place

An edit keeps the size of the descriptor and the place of every other tag.

* `Descriptor.invalidate`           takes a tag out by writing `TagType.invalid` over its type;
* `Descriptor.setModuleRange`       gives a module tag new first and last bytes;
* `Descriptor.moduleToCmdline`      splits a module tag into an invalid tag of eight bytes and a
                                    command line tag whose text is the label:

      before   [module, n] [first] [last] [label ...]
      after    [invalid, 8] [cmdline, n - 8] [label ...]

An edit looks at the header at the given offset only.  `Descriptor.editPrefix` applies one to the
descriptor at the front of a longer buffer.
-/

namespace ChainBoot.Descriptor

/-- the tag an edit is about -/
def tagToEdit (d : Descriptor) (offset : Nat) : Except DescriptorError Tag :=
  match d.tagAt? offset with
  | some t => .ok t
  | none => .error (.noTagAt offset)

/-- the same for an edit of a module tag, which has to hold both of its bounds -/
def moduleToEdit (d : Descriptor) (offset : Nat) : Except DescriptorError Tag :=
  match d.tagToEdit offset with
  | .error e => .error e
  | .ok t =>
    if t.type ≠ TagType.module then .error (.notAModule t.type offset)
    else if t.size < tagHeaderSize + 8 then .error (.truncatedTag t.type offset)
    else .ok t

/-- the descriptor with other bytes from an offset on -/
def overwrite (d : Descriptor) (offset : Nat) (new : Bytes) : Descriptor :=
  ⟨d.bytes.overwrite offset new⟩

def invalidate (d : Descriptor) (offset : Nat) : Except DescriptorError Descriptor :=
  (d.tagToEdit offset).map fun _ => d.overwrite offset (Bytes.le32 TagType.invalid)

def setModuleRange (d : Descriptor) (offset : Nat) (first last : UInt32) :
    Except DescriptorError Descriptor :=
  (d.moduleToEdit offset).map fun _ =>
    d.overwrite (offset + tagHeaderSize) (Bytes.le32 first ++ Bytes.le32 last)

/-- the headers of the two tags that a module tag of the given size is split into -/
def splitHeaders (size : Nat) : Bytes :=
  Bytes.le32 TagType.invalid ++ Bytes.le32 (UInt32.ofNat tagHeaderSize) ++ Bytes.le32 TagType.cmdline
    ++ Bytes.le32 (UInt32.ofNat (size - tagHeaderSize))

def moduleToCmdline (d : Descriptor) (offset : Nat) : Except DescriptorError Descriptor :=
  (d.moduleToEdit offset).map fun t => d.overwrite offset (splitHeaders t.size)

/-- an edit of the descriptor at the front of a buffer: the buffer afterwards, and why the edit was
refused if it was -/
def editPrefix (bs : Bytes) (f : Descriptor → Except DescriptorError Descriptor) :
    Bytes × Except DescriptorError Unit :=
  match parse bs with
  | .error e => (bs, .error e)
  | .ok d =>
    match f d with
    | .error e => (bs, .error e)
    | .ok d' => (d'.bytes ++ bs.drop d.size, .ok ())

end ChainBoot.Descriptor
