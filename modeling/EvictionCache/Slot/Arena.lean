/-!
# Slot arenas

An arena holds values in numbered slots and hands out the number of the slot as the handle of a
value. A slot that is given up goes on a stack of free slots and the next value takes the slot
on top, so an arena never has more slots than it ever held values at one time. Whether a handle
is live shows in its slot alone: `Arena.get?` is the partial map from handles to values that an
arena stands for.
-/
namespace EvictionCache

universe u

/-- The handle of a slot. It is valid until its slot is given up; a later value may then get
the same handle. -/
@[ext] structure SlotId where
  /-- Position of the slot. -/
  index : Nat
deriving DecidableEq

/-- Values in numbered slots. -/
structure Arena (α : Type u) where
  /-- Every slot, occupied or free. -/
  slots : Array (Option α)
  /-- Positions of the free slots, the next to be taken first. -/
  free : List Nat
  /-- Number of occupied slots. -/
  size : Nat

namespace Arena

variable {α : Type u}

/-- An arena without slots. -/
def empty : Arena α := ⟨#[], [], 0⟩

/-- The value in a slot, unless the slot is free or was never there. -/
def get? (arena : Arena α) (slot : SlotId) : Option α := arena.slots[slot.index]?.join

/-- Whether a slot is occupied. -/
def isLive (arena : Arena α) (slot : SlotId) : Bool := (arena.get? slot).isSome

/-- Stores a value in the slot on top of the free stack, or in a new slot if none is free. -/
def insert (arena : Arena α) (value : α) : SlotId × Arena α :=
  match arena.free with
  | index :: rest =>
    (⟨index⟩, ⟨arena.slots.setIfInBounds index (some value), rest, arena.size + 1⟩)
  | [] => (⟨arena.slots.size⟩, ⟨arena.slots.push (some value), [], arena.size + 1⟩)

/-- Gives up a slot and returns its value. A slot that is not occupied holds nothing and stays
as it is. -/
def remove (arena : Arena α) (slot : SlotId) : Option α × Arena α :=
  match arena.get? slot with
  | none => (none, arena)
  | some value =>
    (some value,
      { slots := arena.slots.setIfInBounds slot.index none
        free := slot.index :: arena.free
        size := arena.size - 1 })

/-- Changes the value in an occupied slot. -/
def modify (arena : Arena α) (slot : SlotId) (change : α → α) : Arena α :=
  { arena with slots := arena.slots.modify slot.index (Option.map change) }

end Arena

end EvictionCache
