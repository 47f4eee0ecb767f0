import ChainBoot.Loader
import ChainBoot.Log.Component
import ChainBoot.Options.Size

/-!
# Options on the boot command line

The command line holds words, separated by blanks.  A word `key=value` with a known key sets an
option; a known key with a malformed value changes nothing and is complained about; any other word
is for somebody else.

* `phys_max=<size>`    no relocation reaches this address;
* `loglevel=<name>`    the threshold for log records.

`Options.ofCmdline` applies the words in order, so the last well-formed value of a key wins.
-/

namespace ChainBoot

structure Options where
  physMax : Address
  threshold : Threshold
deriving DecidableEq

namespace Options

def standard : Options := ⟨defaultPhysMax, .upTo .info⟩

/-! ## words -/

/-- the characters between words -/
def isBlank (c : Char) : Bool := c = ' ' ∨ c = '\t' ∨ c = '\n' ∨ c = '\x0c' ∨ c = '\r'

/-- the word whose characters are given, last one first, unless it is empty -/
def finished : List Char → List (List Char)
  | [] => []
  | cs => [cs.reverse]

/-- the words of a text that follows `word`, the start of a word, last character first -/
def wordsFrom : (word : List Char) → List Char → List (List Char)
  | word, [] => finished word
  | word, c :: cs =>
    if isBlank c then finished word ++ wordsFrom [] cs else wordsFrom (c :: word) cs

def words (cs : List Char) : List (List Char) := wordsFrom [] cs

/-- the parts in front of the first equals sign and behind it -/
def keyValue? (word : List Char) : Option (List Char × List Char) :=
  match word.dropWhile (· != '=') with
  | [] => none
  | _ :: value => some (word.takeWhile (· != '='), value)

/-! ## what a word means -/

inductive Setting where
  | physMax (a : Address)
  | threshold (t : Threshold)
deriving DecidableEq

/-- a known key with a value it does not take -/
inductive Complaint where
  | physMax (value : List Char)
  | threshold (value : List Char)
deriving DecidableEq

def Complaint.message : Complaint → String
  | .physMax v => "ignoring malformed phys_max=" ++ String.ofList v
  | .threshold v => "ignoring unknown loglevel=" ++ String.ofList v

inductive Reading where
  | foreign
  | setting (s : Setting)
  | malformed (c : Complaint)
deriving DecidableEq

/-- a size of zero is malformed -/
def readPhysMax (value : List Char) : Reading :=
  match Size.parse? value with
  | some a => if a = .zero then .malformed (.physMax value) else .setting (.physMax a)
  | none => .malformed (.physMax value)

def readThreshold (value : List Char) : Reading :=
  match Threshold.ofName? value with
  | some t => .setting (.threshold t)
  | none => .malformed (.threshold value)

def readWord (word : List Char) : Reading :=
  match keyValue? word with
  | none => .foreign
  | some (key, value) =>
    if key = "phys_max".toList then readPhysMax value
    else if key = "loglevel".toList then readThreshold value
    else .foreign

def Reading.setting? : Reading → Option Setting
  | .setting s => some s
  | _ => none

def Reading.complaint? : Reading → Option Complaint
  | .malformed c => some c
  | _ => none

/-! ## whole command lines -/

def apply (o : Options) : Setting → Options
  | .physMax a => { o with physMax := a }
  | .threshold t => { o with threshold := t }

/-- the settings of a command line, in order -/
def settings (cs : List Char) : List Setting := (words cs).filterMap fun w => (readWord w).setting?

def ofCmdline (s : String) : Options := (settings s.toList).foldl apply standard

/-- the complaints about a command line, in order -/
def complaints (s : String) : List Record :=
  (words s.toList).filterMap fun w =>
    (readWord w).complaint?.map fun c => Component.options.warn c.message

end Options

end ChainBoot
