import ChainBoot.Descriptor.Content
import ChainBoot.Log.Component
import ChainBoot.Log.Feed

/-!
# Records of a walk

A lookup that finds a tag with an impossible size warns about it.  A walk looks one tag ahead, so
the warning about its end is written on the way to its last tag, or at once if there is no tag.
-/

namespace ChainBoot.Descriptor

/-- the warning that a lookup writes -/
def warnings (d : Descriptor) (offset : Nat) : List Record :=
  match d.lookup offset with
  | .undersized type size =>
    [Component.descriptor.warn
      s!"tag type {type.toNat} at {Text.hex offset} declares size {size.toNat}; stopping walk"]
  | .overrun type size =>
    let stop := Text.hex (offset + size.toNat)
    [Component.descriptor.warn
      (s!"tag type {type.toNat} at {Text.hex offset} overruns descriptor "
        ++ s!"({stop} > {Text.hex d.size}); stopping walk")]
  | _ => []

/-- the tags of the walk -/
def tagFeed (d : Descriptor) : Feed Tag := .ofList d.tags (d.warnings d.stopOffset)

/-- the records of a walk to its end -/
def walkNotes (d : Descriptor) : List Record := d.tagFeed.notes

def entryFeed (d : Descriptor) : Feed MemoryEntry :=
  d.tagFeed.expand fun t => (t.memoryMap?.map MemoryMap.entries).getD []

def framebufferFeed (d : Descriptor) : Feed Framebuffer :=
  d.tagFeed.expand fun t => t.framebuffer?.toList

def moduleFeed (d : Descriptor) : Feed (Nat × BootModule) :=
  d.tagFeed.expand fun t => t.module?.toList

/-- the records of a search for the first command line -/
def cmdlineNotes (d : Descriptor) : List Record := d.tagFeed.notesBefore Tag.isCmdline

end ChainBoot.Descriptor
