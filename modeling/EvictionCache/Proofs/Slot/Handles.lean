import EvictionCache.Slot.Call
import EvictionCache.Slot.Lemmas
import Mathlib.Logic.Function.Basic

/-!
# Arenas as partial maps

Seen from outside, an arena is a partial map from handles to values: storing a value binds a
handle that was unbound, giving up a slot unbinds its handle, changing a value changes what its
handle is bound to, and nothing else is touched (`Arena.BindsHandles`). That is so in every state
that an arena can reach, also when handles are presented that are no longer live, since then
nothing happens and no slot gets on the free stack a second time.
-/
namespace EvictionCache.Arena

open Function (update)

universe u

variable {α : Type u} {arena : Arena α}

/-- What an arena keeps about its slots is right, and every operation on it is an operation on the
map from handles to values. -/
structure BindsHandles (arena : Arena α) : Prop where
  /-- No position is on the free stack twice. -/
  free_nodup : arena.free.Nodup
  /-- On the free stack are exactly the positions of slots without a value. -/
  mem_free_iff : ∀ index,
    index ∈ arena.free ↔ index < arena.slots.size ∧ arena.get? ⟨index⟩ = none
  /-- The occupied slots are counted. -/
  size_eq : arena.size = arena.slots.countP Option.isSome
  /-- The handle of a new value was not live. -/
  insert_fresh : ∀ value, arena.get? (arena.insert value).1 = none
  /-- Storing a value binds its handle and no other. -/
  get?_insert : ∀ value,
    (arena.insert value).2.get? = update arena.get? (arena.insert value).1 (some value)
  /-- Giving up a slot hands out what its handle was bound to. -/
  remove_fst : ∀ slot, (arena.remove slot).1 = arena.get? slot
  /-- It unbinds that handle and no other. -/
  get?_remove : ∀ slot, (arena.remove slot).2.get? = update arena.get? slot none
  /-- It makes the count of occupied slots smaller by one. -/
  size_remove : ∀ slot, arena.isLive slot = true → (arena.remove slot).2.size + 1 = arena.size
  /-- With a handle that is not live it does nothing at all. -/
  remove_vacant : ∀ slot, arena.get? slot = none → arena.remove slot = (none, arena)
  /-- Changing a value changes what its handle is bound to, and no other. -/
  get?_modify : ∀ slot change,
    (arena.modify slot change).get? = update arena.get? slot ((arena.get? slot).map change)

namespace WellFormed

/-- The free stack lists the positions below the number of slots that hold no value. -/
theorem mem_free_iff_lt (wellFormed : arena.WellFormed) (index : Nat) :
    index ∈ arena.free ↔ index < arena.slots.size ∧ arena.get? ⟨index⟩ = none := by
  rw [wellFormed.mem_free_iff, get?_eq_none_iff]
  constructor
  · intro vacant
    exact ⟨(Array.getElem?_eq_some_iff.mp vacant).1, .inr vacant⟩
  · rintro ⟨inside, beyond | vacant⟩
    · exact absurd inside (Nat.not_lt_of_le (Array.getElem?_eq_none_iff.mp beyond))
    · exact vacant

/-- An arena with an occupied slot counts at least one, so giving it up counts one less. -/
theorem size_remove (wellFormed : arena.WellFormed) {slot : SlotId}
    (live : arena.isLive slot = true) : (arena.remove slot).2.size + 1 = arena.size := by
  obtain ⟨value, held⟩ := Option.isSome_iff_exists.mp live
  have positive : 0 < arena.size := wellFormed.size_pos held
  have counted : (arena.remove slot).2.size = arena.size - 1 := by rw [Arena.remove, held]
  omega

/-- A well-formed arena is a partial map from handles to values. -/
theorem bindsHandles (wellFormed : arena.WellFormed) : arena.BindsHandles where
  free_nodup := wellFormed.free_nodup
  mem_free_iff := wellFormed.mem_free_iff_lt
  size_eq := wellFormed.size_eq
  insert_fresh := get?_insert_handle wellFormed
  get?_insert value := by
    funext other
    rw [Arena.get?_insert wellFormed, Function.update_apply]
  remove_fst := arena.remove_answer
  get?_remove slot := by
    funext other
    rw [Arena.get?_remove, Function.update_apply]
  size_remove _ := wellFormed.size_remove
  remove_vacant _ := remove_of_none
  get?_modify slot change := by
    funext other
    rw [Arena.get?_modify, Function.update_apply]

/-- Every call keeps an arena well formed. -/
theorem perform (wellFormed : arena.WellFormed) (call : ArenaCall α) :
    (arena.perform call).WellFormed := by
  cases call with
  | insert value => exact wellFormed.insert value
  | remove slot => exact wellFormed.remove slot
  | modify slot change => exact wellFormed.modify slot change
  | clear => exact wellFormed_empty

/-- Every run keeps an arena well formed. -/
theorem run (wellFormed : arena.WellFormed) (calls : List (ArenaCall α)) :
    (arena.run calls).WellFormed := by
  induction calls generalizing arena with
  | nil => exact wellFormed
  | cons call rest ih => exact ih (wellFormed.perform call)

end WellFormed

/-- After every run an arena is a partial map from handles to values whose new handles are fresh,
whichever handles were presented in the run. -/
theorem run_bindsHandles (calls : List (ArenaCall α)) :
    ((empty : Arena α).run calls).BindsHandles :=
  (wellFormed_empty.run calls).bindsHandles

/-- A slot that was given up twice is taken once: the value stored next gets its handle, and the
value after that a handle that was never given before. -/
theorem run_bindsHandles_recycled :
    let arena : Arena Nat :=
      empty.run [.insert 1, .insert 2, .remove ⟨0⟩, .remove ⟨0⟩, .modify ⟨0⟩ (· + 1), .insert 3]
    arena.BindsHandles ∧ arena.free = [] ∧ arena.get? ⟨0⟩ = some 3 ∧
      (arena.insert 4).1 = ⟨2⟩ ∧ arena.remove ⟨5⟩ = (none, arena) :=
  ⟨run_bindsHandles _, rfl, rfl, rfl, (run_bindsHandles _).remove_vacant ⟨5⟩ rfl⟩

end EvictionCache.Arena
