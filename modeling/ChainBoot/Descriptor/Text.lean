import ChainBoot.Descriptor.Content
import ChainBoot.Text.Quoted
import ChainBoot.Text.Place

/-!
# Descriptors as text

The diagnostic form of a value names its type and its fields: `name { field: value }` for a record,
`name(value)` for a case with one value.
-/

namespace ChainBoot

namespace Text

/-- a record: its name and its fields in order -/
def fields (name : String) (fs : List (String × String)) : String :=
  name ++ " \x7b " ++ ", ".intercalate (fs.map fun (k, v) => k ++ ": " ++ v) ++ " \x7d"

/-- a case that holds one value -/
def wrapped (name value : String) : String := name ++ "(" ++ value ++ ")"

def decimals (bs : Bytes) : String := "[" ++ ", ".intercalate (bs.map fun b => toString b.toNat) ++ "]"

def yesNo (b : Bool) : String := if b then "true" else "false"

end Text

def BootModule.text (m : BootModule) : String :=
  Text.fields "ModuleTag" [("start", toString m.first.toNat), ("end", toString m.last.toNat),
    ("label", Text.quote m.label)]

def MemoryMap.text (m : MemoryMap) : String :=
  Text.fields "MemoryMap" [("entry_size", toString m.entrySize.toNat),
    ("entry_version", toString m.version.toNat), ("entries", Text.decimals m.body)]

def Framebuffer.text (f : Framebuffer) : String :=
  Text.fields "FramebufferTag" [("addr", toString f.addr.val), ("pitch", toString f.pitch.toNat),
    ("width", toString f.width.toNat), ("height", toString f.height.toNat),
    ("bpp", toString f.bpp.toNat), ("fb_type", toString f.kind.toNat)]

def RootPointer.text (p : RootPointer) : String :=
  Text.fields "RsdpTag" [("len", toString p.bytes.length), ("signature", Text.yesNo p.signed)]

def Content.text : Content → String
  | .cmdline s => Text.wrapped "Cmdline" (Text.wrapped "CmdlineTag" (Text.quote s))
  | .module m => Text.wrapped "Module" m.text
  | .memoryMap m => Text.wrapped "MemoryMap" m.text
  | .framebuffer f => Text.wrapped "Framebuffer" f.text
  | .acpiOld p => Text.wrapped "AcpiOldRsdp" p.text
  | .acpiNew p => Text.wrapped "AcpiNewRsdp" p.text
  | .invalid => "Invalid"
  | .other type => Text.fields "Other" [("tag_type", toString type.toNat)]

def Descriptor.text (d : Descriptor) : String :=
  Text.fields "BootDescriptor" [("total_size", toString d.size), ("tags", toString d.tags.length)]

end ChainBoot
