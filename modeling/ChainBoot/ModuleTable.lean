import ChainBoot.Descriptor.Content
import ChainBoot.Elf

/-!
# Module tables

The modules collected from a descriptor, in order.  A record is known by its handle, its place in
the table; the first one is the kernel.

* `ModuleTable.push`        adds a module, up to `ModuleTable.capacity`;
* `ModuleTable.update`      changes the record of a handle;
* `ModuleTable.conflict?`   the first pending module, the kernel apart, that lies where a loadable
                            segment goes.

The records lie in a vector of fixed capacity from outside of the loader.  What is assumed of it: it
starts empty and is empty again when it is cleared; a push puts the new element behind all others as
long as there are fewer than the capacity, and is refused otherwise, without a change; an element is
found at its index, and none at an index past the last.
-/

namespace ChainBoot

inductive ModuleState where
  | pending
  /-- turned into the kernel's command line -/
  | consumed
deriving DecidableEq, Repr

structure ModuleRecord where
  handle : Nat
  tagOffset : Nat
  first : UInt32
  last : UInt32
  state : ModuleState
deriving DecidableEq, Repr

namespace ModuleRecord

def range (r : ModuleRecord) : Range := .inclusive (.ofUInt32 r.first) (.ofUInt32 r.last)

def size (r : ModuleRecord) : Nat := r.range.size

def isPending (r : ModuleRecord) : Bool := r.state == .pending

def isKernel (r : ModuleRecord) : Bool := r.handle == 0

end ModuleRecord

structure ModuleTable where
  records : List ModuleRecord
deriving DecidableEq, Repr

namespace ModuleTable

/-- a table holds no more records than this -/
def capacity : Nat := 32

def empty : ModuleTable := ⟨[]⟩

def size (t : ModuleTable) : Nat := t.records.length

def isEmpty (t : ModuleTable) : Bool := t.records.isEmpty

/-- the table with one more pending record, if there is room -/
def push (t : ModuleTable) (tagOffset : Nat) (first last : UInt32) : Option ModuleTable :=
  if t.size < capacity then
    some ⟨t.records ++ [⟨t.size, tagOffset, first, last, .pending⟩]⟩
  else none

def get? (t : ModuleTable) (handle : Nat) : Option ModuleRecord := t.records[handle]?

def kernel? (t : ModuleTable) : Option ModuleRecord := t.get? 0

/-- the table with the record of a handle changed, if there is one -/
def update (t : ModuleTable) (handle : Nat) (f : ModuleRecord → ModuleRecord) : ModuleTable :=
  ⟨t.records.modify handle f⟩

/-- the handle of the first module in the way of a loadable segment -/
def conflict? (t : ModuleTable) (segments : List Elf.Segment) : Option Nat :=
  (t.records.find? fun r => r.isPending && !r.isKernel
    && segments.any fun s => s.loadable && s.range.overlaps r.range).map ModuleRecord.handle

end ModuleTable

end ChainBoot
