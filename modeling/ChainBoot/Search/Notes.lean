import ChainBoot.Descriptor.Notes
import ChainBoot.Search
import ChainBoot.Text.Place

/-!
# Records of a search

A search reports each candidate that it prefers to the ones before.  It walks over the reserved
ranges anew for every entry and leaves that walk once nothing of the entry is left.
-/

namespace ChainBoot.Located

/-- the reserved ranges; both walks behind them start before the first range is taken -/
def reservedFeed (l : Located) (image : Range) : Feed Range :=
  let framebuffers := l.descriptor.framebufferFeed.expand fun f => [f.extent]
  let modules := l.descriptor.moduleFeed.expand fun m => [m.2.range]
  if l.descriptor.tags.isEmpty then framebuffers ++ modules ++ [.item image, .item l.extent]
  else [.item image, .item l.extent] ++ framebuffers ++ modules

/-- the records of taking the ranges of a feed out of `r`, up to the first range that is left over
when `r` is empty -/
def exclusionNotes : Range → Feed Range → List Record
  | _, [] => []
  | r, .note n :: rest => n :: exclusionNotes r rest
  | r, .item o :: rest => if r.isEmpty then [] else exclusionNotes (r.exclude o) rest

/-- what a search asks for -/
structure Request where
  image : Range
  needed : Nat
  fit : Fit
  ceiling : Address

def fitNote (name : String) (needed : Nat) (e : MemoryEntry) (a : Address) : Record :=
  Component.search.debug s!"{name} fit for {Text.hex needed} bytes in {e.range.text}: {a.text}"

def searchNotesFrom (l : Located) (q : Request) : (best : Option Address) → Feed MemoryEntry →
    List Record
  | _, [] => []
  | best, .note r :: rest => r :: l.searchNotesFrom q best rest
  | best, .item e :: rest =>
    let walked := match e.pagesBelow? q.ceiling with
      | none => []
      | some r => exclusionNotes r (l.reservedFeed q.image)
    walked ++ match e.candidate? q.needed q.ceiling (l.reservedRanges q.image) with
      | none => l.searchNotesFrom q best rest
      | some r =>
        match q.fit with
        | .lowest => [fitNote "lowest" q.needed e r.start]
        | .highest =>
          let a := r.anchor q.needed
          if best.all (· < a) then
            fitNote "highest" q.needed e a :: l.searchNotesFrom q (some a) rest
          else l.searchNotesFrom q best rest

def searchNotes (l : Located) (image : Range) (needed : Nat) (fit : Fit) (ceiling : Address) :
    List Record :=
  l.searchNotesFrom ⟨image, needed, fit, ceiling⟩ none
    (l.descriptor.entryFeed.expand fun e => if e.isAvailable then [e] else [])

end ChainBoot.Located
