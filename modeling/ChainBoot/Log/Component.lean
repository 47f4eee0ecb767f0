import ChainBoot.Log

/-!
# Who writes records

Every record names the component that it comes from.
-/

namespace ChainBoot

inductive Component where
  | entry
  | options
  | dump
  | descriptor
  | kernelImage
  | search
  | placement
  | loader
deriving DecidableEq, Repr

namespace Component

/-- the name of a component in its records -/
def target : Component → String
  | .entry => "trampoline"
  | .options => "trampoline::config"
  | .dump => "trampoline::tracing"
  | .descriptor => "trampoline_mbi2::descriptor"
  | .kernelImage => "trampoline_elf::parser"
  | .search => "trampoline_chainload::search"
  | .placement => "trampoline_chainload::validate"
  | .loader => "trampoline_chainload::orchestrator"

def error (c : Component) (message : String) : Record := ⟨.error, c.target, message⟩
def warn (c : Component) (message : String) : Record := ⟨.warn, c.target, message⟩
def info (c : Component) (message : String) : Record := ⟨.info, c.target, message⟩
def debug (c : Component) (message : String) : Record := ⟨.debug, c.target, message⟩
def trace (c : Component) (message : String) : Record := ⟨.trace, c.target, message⟩

end Component

end ChainBoot
