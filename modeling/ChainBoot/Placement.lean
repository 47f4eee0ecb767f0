import ChainBoot.Reserved
import ChainBoot.Elf

/-!
# Placement of the kernel

A segment may be loaded where it is if it touches neither the descriptor, nor memory of another
kind than available, nor the loader's image, and if one available entry contains it.

* `Located.obstacle?`     the first of these conditions that a range breaks;
* `Located.validate`      the verdict on a kernel: its first segment with an obstacle.
-/

namespace ChainBoot

/-- what is in the way of a segment -/
inductive Obstacle where
  | descriptor
  | unavailable (entry : MemoryEntry)
  | image
  | outside
deriving DecidableEq

inductive PlacementError where
  /-- moving the descriptor helps -/
  | descriptorOverlap (segment descriptor : Range)
  | outOfRam (segment : Range)
deriving DecidableEq

def PlacementError.message : PlacementError → String
  | .descriptorOverlap segment descriptor =>
    s!"segment {segment.text} overlaps the boot descriptor at {descriptor.text}"
  | .outOfRam segment => s!"segment {segment.text} does not lie in available RAM"

/-- an entry that keeps segments away -/
def MemoryEntry.blocks (e : MemoryEntry) (r : Range) : Bool := !e.isAvailable && e.range.overlaps r

/-- an entry that a segment may lie in -/
def MemoryEntry.holds (e : MemoryEntry) (r : Range) : Bool := e.isAvailable && e.range.contains r

namespace Located

def obstacle? (l : Located) (image r : Range) : Option Obstacle :=
  if r.overlaps l.extent then some .descriptor
  else match l.descriptor.memoryEntries.find? fun e => e.blocks r with
    | some e => some (.unavailable e)
    | none =>
      if r.overlaps image then some .image
      else if l.descriptor.memoryEntries.any fun e => e.holds r then none
      else some .outside

/-- the error that an obstacle of a segment means -/
def verdict (l : Located) (r : Range) : Obstacle → PlacementError
  | .descriptor => .descriptorOverlap r l.extent
  | _ => .outOfRam r

/-- the ranges are checked in order, the first one with an obstacle decides -/
def validateRanges (l : Located) (image : Range) : List Range → Except PlacementError Unit
  | [] => .ok ()
  | r :: rs =>
    match l.obstacle? image r with
    | some o => .error (l.verdict r o)
    | none => validateRanges l image rs

def validate (l : Located) (image : Range) (kernel : Elf.Header) : Except PlacementError Unit :=
  l.validateRanges image (kernel.loadable.map Elf.Segment.range)

end Located

end ChainBoot
