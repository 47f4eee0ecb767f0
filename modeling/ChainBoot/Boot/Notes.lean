import ChainBoot.Boot
import ChainBoot.Loader.Notes

/-!
# Records of the entry point

* `Boot.dump`              every tag of a descriptor, as it was handed over;
* `Boot.chainLoadNotes`    the records of a call that pass the threshold in force: the one of the
                           call until the options are read, the one of the options afterwards;
* `Boot.runNotes`          the same, and the error at the end.
-/

namespace ChainBoot.Boot

/-! ## the dump -/

def entryNote (e : MemoryEntry) : Record :=
  Component.dump.debug s!"    {e.range.text} {e.kind.name}"

/-- what a tag says, with its offset in front -/
def tagNotes (t : Tag) : List Record :=
  let at_ := Text.hexWide 4 t.offset
  match t.content with
  | .ok (.cmdline text) => [Component.dump.debug s!"  {at_} cmdline {Text.quote text}"]
  | .ok (.module m) =>
    [Component.dump.debug s!"  {at_} module {m.range.text} {Text.quote m.label}"]
  | .ok (.memoryMap m) =>
    let sizes := s!"entry size {m.entrySize.toNat}, version {m.version.toNat}"
    Component.dump.debug s!"  {at_} memory map, {sizes}" :: m.entries.map entryNote
  | .ok (.framebuffer f) =>
    let shape := s!"{f.width.toNat}x{f.height.toNat}x{f.bpp.toNat}"
    [Component.dump.debug s!"  {at_} framebuffer {f.extent.text} {shape}"]
  | .ok (.acpiOld p) => [Component.dump.debug s!"  {at_} acpi rsdp {p.text}"]
  | .ok (.acpiNew p) => [Component.dump.debug s!"  {at_} acpi rsdp {p.text}"]
  | .ok .invalid => [Component.dump.debug s!"  {at_} invalidated, {t.size} bytes"]
  | .ok (.other type) =>
    [Component.dump.debug s!"  {at_} type {type.toNat}, {t.size} bytes"]
  | .error e => [Component.dump.warn s!"  {at_} {e.message}"]

def dumpTags : Feed Tag → List Record
  | [] => []
  | .note r :: rest => r :: dumpTags rest
  | .item t :: rest => tagNotes t ++ dumpTags rest

/-- the headline counts the modules, which takes a walk of its own, made only if it is written -/
def dump (threshold : Threshold) (a : Address) (d : Descriptor) : List Record :=
  let headline :=
    if threshold.admits .info then
      d.moduleFeed.notes ++ [Component.dump.info
        s!"boot descriptor at {a.text}, {d.size} bytes, {d.modules.length} module(s)"]
    else []
  threshold.filter (headline ++ dumpTags d.tagFeed)

/-! ## calls -/

/-- the records of reading the options, before they are in force -/
def optionNotes (d : Descriptor) : List Record :=
  d.cmdlineNotes ++ match d.cmdline? with
    | none => []
    | some text => Options.complaints text

def chainLoadNotes (c : Call) : List Record :=
  match Protocol.ofMagic c.magic with
  | .error _ => []
  | .ok .multiboot2 =>
    match Loader.descriptorAt c.memory c.descriptor with
    | .error _ => []
    | .ok d =>
      let o := optionsOf d
      let started := Component.entry.info
        s!"relocating below {Text.hex o.physMax.val}, trampoline image at {c.image.text}"
      c.threshold.filter (optionNotes d) ++ dump o.threshold c.descriptor d
        ++ o.threshold.filter (started :: (c.loader o).bootNotes c.descriptor)

def runNotes (c : Call) : List Record :=
  let r := chainLoad c
  chainLoadNotes c ++ r.threshold.filter [Component.entry.error r.error.message]

end ChainBoot.Boot
