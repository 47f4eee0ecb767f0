import ChainBoot.Log

/-!
# Items with records between them

A feed is a list of items in which log records stand where they are written: whoever takes the
items one by one writes the records on the way.

* `Feed.notes`         all records;
* `Feed.notesBefore`   the records on the way to the first item with a property, or to the end;
* `Feed.expand`        a list of items in place of each item.
-/

namespace ChainBoot

inductive Beat (α : Type) where
  | note (r : Record)
  | item (a : α)

abbrev Feed (α : Type) := List (Beat α)

namespace Feed

variable {α β : Type}

/-- the items of a list, with notes that are written on the way to the last one -/
def ofList (items : List α) (notes : List Record) : Feed α :=
  items.dropLast.map .item ++ notes.map .note ++ items.getLast?.toList.map .item

def notes : Feed α → List Record
  | [] => []
  | .note r :: rest => r :: notes rest
  | .item _ :: rest => notes rest

def notesBefore (p : α → Bool) : Feed α → List Record
  | [] => []
  | .note r :: rest => r :: notesBefore p rest
  | .item a :: rest => if p a then [] else notesBefore p rest

def expand (f : α → List β) : Feed α → Feed β
  | [] => []
  | .note r :: rest => .note r :: expand f rest
  | .item a :: rest => (f a).map .item ++ expand f rest

/-- the records in front of the first item -/
def opening : Feed α → List Record
  | .note r :: rest => r :: opening rest
  | _ => []

/-- the feed from its first item on -/
def started : Feed α → Feed α
  | .note _ :: rest => started rest
  | feed => feed

end Feed

end ChainBoot
