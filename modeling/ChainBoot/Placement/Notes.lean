import ChainBoot.Descriptor.Notes
import ChainBoot.Placement

/-!
# Records of checking a placement

The obstacle that decides the check is reported.  A segment makes up to two walks over the memory
map: one for an entry that keeps it away, one for an entry that it lies in.
-/

namespace ChainBoot.Located

def obstacleNote (l : Located) (image r : Range) : Obstacle → Record
  | .descriptor =>
    Component.placement.debug s!"segment {r.text} overlaps boot descriptor {l.extent.text}"
  | .unavailable e =>
    Component.placement.debug
      s!"segment {r.text} overlaps {e.kind.name} memory at {e.range.text}"
  | .image =>
    Component.placement.debug s!"segment {r.text} overlaps the trampoline image {image.text}"
  | .outside => Component.placement.debug s!"segment {r.text} is not inside available RAM"

/-- the records of the walks that the check of one segment makes -/
def obstacleWalks (l : Located) (image r : Range) : List Record :=
  let away := l.descriptor.entryFeed.notesBefore fun e => e.blocks r
  let inside := l.descriptor.entryFeed.notesBefore fun e => e.holds r
  match l.obstacle? image r with
  | some .descriptor => []
  | some (.unavailable _) => away
  | some .image => away
  | some .outside => away ++ inside
  | none => away ++ inside

def rangeNotes (l : Located) (image : Range) : List Range → List Record
  | [] => []
  | r :: rs =>
    l.obstacleWalks image r ++ match l.obstacle? image r with
      | some o => [l.obstacleNote image r o]
      | none => l.rangeNotes image rs

def validateNotes (l : Located) (image : Range) (kernel : Elf.Header) : List Record :=
  l.rangeNotes image (kernel.loadable.map Elf.Segment.range)

end ChainBoot.Located
