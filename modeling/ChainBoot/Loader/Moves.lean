import ChainBoot.Loader.Run

/-!
# The moves of a run

What a run relocates is read off its phases: a phase that moves something copies `Move.size` bytes
to `Move.target`.

* `Loader.move?`      the move that a phase carries out, if it carries one out;
* `Loader.trace`      the phases of a run from a descriptor address, with the loader entering each;
* `moves`             the moves of a list of phases, in order;
* `Loader.Request`    one use of a loader, and `Loader.after`, `Loader.history` for any number of
                      them: the loader then, and the phases of all their runs.
-/

namespace ChainBoot

/-- a number of bytes and where they are copied to -/
structure Move where
  target : Address
  size : Nat
deriving DecidableEq

/-- the memory that a move writes -/
def Move.range (m : Move) : Range := .span m.target m.size

namespace Loader

/-! ## one run -/

/-- the move that a phase carries out; one that fails carries out none -/
def move? (l : Loader) : Phase → Option Move
  | .relocatingDescriptor =>
    match l.planDescriptorMove, l.moveDescriptor.2 with
    | .ok move, .next _ => some ⟨move.target, move.source.size⟩
    | _, _ => none
  | .relocatingModules =>
    match l.planModuleMove, l.moveModule.2 with
    | .ok (some move), .next _ => some ⟨move.target, move.source.size⟩
    | _, _ => none
  | _ => none

/-- the phases of a run from a descriptor address -/
def trace (l : Loader) (a : Address) : List (Phase × Loader) := (l.aim a).visits .collecting

/-- the moves that some phases carry out, in order -/
def moves (vs : List (Phase × Loader)) : List Move := vs.filterMap fun v => v.2.move? v.1

/-! ## any number of runs -/

/-- one use of a loader, from a descriptor address -/
inductive Request where
  | prepare (a : Address)
  | boot (a : Address)
deriving DecidableEq

def Request.address : Request → Address
  | .prepare a => a
  | .boot a => a

/-- the loader that a request leaves -/
def serve (l : Loader) : Request → Loader
  | .prepare a => (l.prepare a).1
  | .boot a => (l.boot a).loader

/-- the hand-offs that a request gives back or starts a kernel with -/
def handOffs (l : Loader) : Request → List HandOff
  | .prepare a => (l.prepare a).2.toOption.toList
  | .boot a => (l.boot a).started

/-- the loader behind a sequence of requests -/
def after (l : Loader) (rs : List Request) : Loader := rs.foldl serve l

/-- the phases of a sequence of requests, run after run -/
def history (l : Loader) : List Request → List (Phase × Loader)
  | [] => []
  | r :: rs => l.trace r.address ++ (l.serve r).history rs

theorem moves_nil : moves [] = [] := rfl

theorem moves_cons (v : Phase × Loader) (vs : List (Phase × Loader)) :
    moves (v :: vs) = (v.2.move? v.1).toList ++ moves vs := by
  unfold moves
  rw [List.filterMap_cons]
  cases v.2.move? v.1 <;> rfl

theorem moves_append (vs ws : List (Phase × Loader)) : moves (vs ++ ws) = moves vs ++ moves ws :=
  List.filterMap_append

theorem serve_eq (l : Loader) (r : Request) : l.serve r = (l.prepare r.address).1 := by
  cases r with
  | prepare a => rfl
  | boot a =>
    show (l.boot a).loader = (l.prepare a).1
    unfold boot
    split <;> rename_i h <;> rw [h]

theorem mem_handOffs_iff (l : Loader) (r : Request) (ho : HandOff) :
    ho ∈ l.handOffs r ↔ (l.prepare r.address).2 = .ok ho := by
  cases r with
  | prepare a =>
    show ho ∈ (l.prepare a).2.toOption.toList ↔ (l.prepare a).2 = .ok ho
    cases (l.prepare a).2 with
    | error e =>
      constructor
      · intro h
        cases h
      · intro h
        cases h
    | ok found =>
      rw [Except.ok.injEq, eq_comm]
      exact List.mem_singleton
  | boot a =>
    show ho ∈ (l.boot a).started ↔ (l.prepare a).2 = .ok ho
    unfold boot
    split
    · rename_i found h
      rw [h, Except.ok.injEq, eq_comm]
      exact List.mem_singleton
    · rename_i e h
      rw [h]
      constructor
      · intro h
        cases h
      · intro h
        cases h

theorem after_cons (l : Loader) (r : Request) (rs : List Request) :
    l.after (r :: rs) = (l.serve r).after rs := rfl

theorem after_concat (l : Loader) (rs : List Request) (r : Request) :
    l.after (rs ++ [r]) = (l.after rs).serve r := List.foldl_append ..

theorem history_cons (l : Loader) (r : Request) (rs : List Request) :
    l.history (r :: rs) = l.trace r.address ++ (l.serve r).history rs := rfl

end Loader

end ChainBoot
