import ChainBoot.Log

/-!
# The console logger

The logger is installed once, with a threshold; it writes the records that its threshold admits to
the debug console.  Raw text goes to the console without a filter.
-/

namespace ChainBoot

structure Logger where
  threshold : Threshold
deriving DecidableEq, Repr

namespace Logger

inductive InstallError where
  | alreadyInstalled
deriving DecidableEq, Repr

def InstallError.message : InstallError → String
  | .alreadyInstalled =>
    "attempted to set a logger after the logging system was already initialized"

/-- installs a logger where there is none yet -/
def install (current : Option Logger) (threshold : Threshold) : Except InstallError Logger :=
  match current with
  | none => .ok ⟨threshold⟩
  | some _ => .error .alreadyInstalled

def enabled (l : Logger) (level : Level) : Bool := l.threshold.admits level

/-- what a record leaves on the console -/
def log (l : Logger) (r : Record) : String := if l.enabled r.level then r.line else ""

end Logger

namespace Console

/-- what texts leave on the console when they are written as they are -/
def raw (texts : List String) : String := String.join texts

end Console

end ChainBoot
