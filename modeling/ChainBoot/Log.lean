/-!
# Log records

A record has a level, the component it comes from and a message.  A threshold lets the records
through that are at least as severe; `Threshold.off` lets none through.

* `Record.line`            a record as one console line;
* `Threshold.admits`       the filter;
* `Threshold.ofName?`      a threshold by its name, in any mix of cases;
* `Console.text`           what a list of records leaves on the console.

Levels, thresholds and the reading of their names belong to a logging library that stands outside of
the loader.  What is assumed of it: there are five levels in this order, and a sixth threshold below
all of them; each is known by the one name that `Threshold.name` gives; a name is read if it is the
whole text, whichever case its ASCII letters have, and no other text is read; and a record is
written exactly if its level is not less severe than the threshold in force.
-/

namespace ChainBoot

inductive Level where
  | error
  | warn
  | info
  | debug
  | trace
deriving DecidableEq, Repr

inductive Threshold where
  | off
  | upTo (level : Level)
deriving DecidableEq, Repr

namespace Level

/-- severe levels come first -/
def rank : Level → Nat
  | .error => 1
  | .warn => 2
  | .info => 3
  | .debug => 4
  | .trace => 5

def name : Level → String
  | .error => "ERROR"
  | .warn => "WARN"
  | .info => "INFO"
  | .debug => "DEBUG"
  | .trace => "TRACE"

end Level

namespace Threshold

def name : Threshold → String
  | .off => "OFF"
  | .upTo l => l.name

def all : List Threshold :=
  [.off, .upTo .error, .upTo .warn, .upTo .info, .upTo .debug, .upTo .trace]

/-- the threshold of that name; letters of the ASCII alphabet match in either case -/
def ofName? (cs : List Char) : Option Threshold :=
  all.find? fun t => t.name.toList == cs.map Char.toUpper

def admits : Threshold → Level → Bool
  | .off, _ => false
  | .upTo t, l => l.rank ≤ t.rank

end Threshold

structure Record where
  level : Level
  target : String
  message : String
deriving DecidableEq, Repr

namespace Record

def line (r : Record) : String := s!"[{r.level.name}] {r.target}: {r.message}\n"

end Record

/-- the records that pass a threshold -/
def Threshold.filter (t : Threshold) (rs : List Record) : List Record :=
  rs.filter fun r => t.admits r.level

namespace Console

/-- what the records leave on the console -/
def text (rs : List Record) : String := String.join (rs.map Record.line)

/-- console text cut behind each line feed -/
def cutLines (cs : List Char) : List (List Char) :=
  match cs with
  | [] => []
  | c :: rest =>
    if c = '\n' then [c] :: cutLines rest
    else match cutLines rest with
      | [] => [[c]]
      | l :: ls => (c :: l) :: ls

def lines (s : String) : List String := (cutLines s.toList).map String.ofList

end Console

end ChainBoot
