import EvictionCache.Slot.Arena

/-!
# Runs of arenas

An `ArenaCall` is one operation that changes an arena, with its arguments. Runs of an arena are
lists of calls, carried out one after another. A call may name any handle at all: one that is
live, one whose slot was given up, or one that was never handed out.
-/
namespace EvictionCache

universe u

/-- One operation that changes an arena. -/
inductive ArenaCall (α : Type u) where
  /-- Stores a value. -/
  | insert (value : α)
  /-- Gives up a slot. -/
  | remove (slot : SlotId)
  /-- Changes the value in a slot. -/
  | modify (slot : SlotId) (change : α → α)
  /-- Gives up every slot. -/
  | clear

namespace Arena

variable {α : Type u}

/-- Carries out one call. -/
def perform (arena : Arena α) : ArenaCall α → Arena α
  | .insert value => (arena.insert value).2
  | .remove slot => (arena.remove slot).2
  | .modify slot change => arena.modify slot change
  | .clear => empty

/-- Carries out calls one after another. -/
def run (arena : Arena α) (calls : List (ArenaCall α)) : Arena α := calls.foldl perform arena

end Arena

end EvictionCache
