import ChainBoot.Reserved
import ChainBoot.Range.Exclusion

/-!
# Searching for free memory

`Located.findRegion` looks for `needed` bytes of available memory below a ceiling that no reserved
range touches, from a page boundary on.  Every available entry of the memory map gives at most one
candidate: it is rounded up to a page, cut at the ceiling, reduced by the reserved ranges one after
another and rounded up again.

* `Fit.lowest`    the first candidate in map order, at its start;
* `Fit.highest`   the highest page boundary from which a candidate still holds the bytes.
-/

namespace ChainBoot

inductive Fit where
  | lowest
  | highest
deriving DecidableEq, Repr

namespace MemoryEntry

/-- the pages of an entry below the ceiling, before anything is taken out -/
def pagesBelow? (e : MemoryEntry) (ceiling : Address) : Option Range :=
  match e.range.start.alignUp? with
  | none => none
  | some start =>
    if start < ceiling then some ((Range.between start e.range.stop).below ceiling) else none

/-- what the reserved ranges leave of an entry, from a page boundary on -/
def free? (e : MemoryEntry) (ceiling : Address) (reserved : List Range) : Option Range :=
  match e.pagesBelow? ceiling with
  | none => none
  | some r =>
    let left := r.excludeAll reserved
    left.start.alignUp?.map fun start => Range.between start left.stop

/-- the free part of an entry, if it is not empty and holds `needed` bytes -/
def candidate? (e : MemoryEntry) (needed : Nat) (ceiling : Address) (reserved : List Range) :
    Option Range :=
  (e.free? ceiling reserved).filter fun r => !r.isEmpty && needed ≤ r.size

end MemoryEntry

/-- the last page boundary from which `needed` bytes fit into `r` -/
def Range.anchor (r : Range) (needed : Nat) : Address :=
  Address.alignDown ⟨r.stop.val - needed, by omega⟩

namespace Located

/-- the candidates in map order -/
def candidates (l : Located) (image : Range) (needed : Nat) (ceiling : Address) : List Range :=
  let reserved := l.reservedRanges image
  (l.descriptor.memoryEntries.filter MemoryEntry.isAvailable).filterMap fun e =>
    e.candidate? needed ceiling reserved

/-- the greater of the best address so far and the next one -/
def better : (best : Option Address) → (a : Address) → Option Address
  | none, a => some a
  | some b, a => if b < a then some a else some b

/-- the greatest address of a list -/
def greatest? (as : List Address) : Option Address := as.foldl better none

def findRegion (l : Located) (image : Range) (needed : Nat) (fit : Fit) (ceiling : Address) :
    Option Address :=
  let cs := l.candidates image needed ceiling
  match fit with
  | .lowest => cs.head?.map Range.start
  | .highest => greatest? (cs.map fun r => r.anchor needed)

end Located

end ChainBoot
