import EvictionCache.Proofs.Store.Basic

/-!
# The slots of a store

The footprint of an arena is how many slots it has and which of them are free. A new value takes
the slot that was freed last, or a slot of its own if none is free; a removed value gives its slot
up; and nothing else changes a footprint, since relinking nodes moves no value. The same holds of
the store of every policy. A slot that is given up and taken at once leaves the footprint as it
was.
-/
namespace EvictionCache

/-- How many slots there are, and the positions of the free ones. -/
@[ext] structure Footprint where
  /-- Number of slots, occupied or free. -/
  slots : Nat
  /-- Positions of the free slots, the next to be taken first. -/
  free : List Nat
deriving DecidableEq

namespace Footprint

/-- No slots at all. -/
def empty : Footprint := ⟨0, []⟩

/-- The position that the next value takes. -/
def next (footprint : Footprint) : Nat := footprint.free.headD footprint.slots

/-- The footprint after a value took the next position. -/
def take : Footprint → Footprint
  | ⟨slots, []⟩ => ⟨slots + 1, []⟩
  | ⟨slots, _ :: rest⟩ => ⟨slots, rest⟩

/-- The footprint after the value in a position was removed. -/
def give (footprint : Footprint) (position : Nat) : Footprint :=
  { footprint with free := position :: footprint.free }

/-- The position that was given up is the next to be taken. -/
@[simp] theorem next_give (footprint : Footprint) (position : Nat) :
    (footprint.give position).next = position := rfl

/-- Taking what was given up leaves everything as it was. -/
@[simp] theorem take_give (footprint : Footprint) (position : Nat) :
    (footprint.give position).take = footprint := rfl

/-- Giving up a position leaves the number of slots. -/
@[simp] theorem slots_give (footprint : Footprint) (position : Nat) :
    (footprint.give position).slots = footprint.slots := rfl

/-- Where every slot holds a value or is free, a new value takes a slot that was free, or there are
afterwards as many slots as values. -/
theorem slots_take {footprint : Footprint} {size later : Nat}
    (before : footprint.slots = size + footprint.free.length)
    (after : footprint.take.slots = later + footprint.take.free.length) :
    footprint.take.slots = max footprint.slots later := by
  obtain ⟨slots, _ | ⟨position, rest⟩⟩ := footprint <;>
    simp only [take, List.length_nil, List.length_cons] at before after ⊢ <;> omega

end Footprint

namespace Arena

variable {α : Type} {arena : Arena α} {slot : SlotId}

/-- The footprint of an arena. -/
def footprint (arena : Arena α) : Footprint := ⟨arena.slots.size, arena.free⟩

/-- Changing a value changes no footprint. -/
@[simp] theorem footprint_modify (arena : Arena α) (slot : SlotId) (change : α → α) :
    (arena.modify slot change).footprint = arena.footprint :=
  congrArg (Footprint.mk · _) Array.size_modify

/-- A removed value gives its slot up. -/
theorem footprint_remove (live : arena.isLive slot = true) :
    (arena.remove slot).2.footprint = arena.footprint.give slot.index := by
  obtain ⟨value, held⟩ := Option.isSome_iff_exists.mp live
  rw [remove, held]
  exact congrArg (Footprint.mk · _) Array.size_setIfInBounds

/-- A new value takes the next slot. -/
theorem footprint_insert (arena : Arena α) (value : α) :
    (arena.insert value).1.index = arena.footprint.next ∧
      (arena.insert value).2.footprint = arena.footprint.take := by
  obtain ⟨slots, free, size⟩ := arena
  cases free with
  | nil => exact ⟨rfl, congrArg (Footprint.mk · _) (Array.size_push _)⟩
  | cons position rest => exact ⟨rfl, congrArg (Footprint.mk · _) Array.size_setIfInBounds⟩

end Arena

section Links

variable {α : Type} {nodes : Nodes α} {slot : SlotId}

/-- Links play no part in a footprint. -/
theorem Nodes.SameValues.footprint_eq {other : Nodes α} (same : nodes.SameValues other) :
    Arena.footprint other = Arena.footprint nodes :=
  Footprint.ext same.slots_size_eq same.free_eq

/-- A value that is linked takes the next slot. -/
theorem Chain.footprint_add (chain : Chain) (nodes : Nodes α) (value : α) :
    (chain.add nodes value).1.index = (Arena.footprint nodes).next ∧
      Arena.footprint (chain.add nodes value).2.2 = (Arena.footprint nodes).take := by
  obtain ⟨position, taken⟩ := Arena.footprint_insert nodes (.detached value)
  exact ⟨position, (Chain.sameValues_attach ..).footprint_eq.trans taken⟩

/-- A node that links alone were changed of gives its slot up. -/
theorem Nodes.SameValues.footprint_remove {other : Nodes α} (same : nodes.SameValues other)
    (live : nodes.isLive slot = true) :
    Arena.footprint (other.remove slot).2 = (Arena.footprint nodes).give slot.index := by
  have still : other.isLive slot = true := (same.isSome_get?_eq slot).trans live
  rw [Arena.footprint_remove still, same.footprint_eq]

end Links

namespace Policy

variable {κ ν : Type} {policy : Policy}

/-- The footprint of the arena in which a store keeps its entries. -/
def footprint : (policy : Policy) → policy.Store κ ν → Footprint
  | lru, store => Arena.footprint (RecencyStore.nodes store)
  | lfu, store => Arena.footprint (RankedStore.slots store)
  | lfru, store => Arena.footprint (BucketedStore.nodes store)

/-- A store without entries has no slots. -/
@[simp] theorem footprint_emptyStore (policy : Policy) :
    policy.footprint (policy.emptyStore : policy.Store κ ν) = .empty := by
  cases policy <;> rfl

/-- A cleared store has no slots. -/
@[simp] theorem footprint_clearStore (store : policy.Store κ ν) :
    policy.footprint (policy.clearStore store) = .empty := by
  cases policy <;> rfl

/-- Replacing a value changes no footprint. -/
@[simp] theorem footprint_setValue (store : policy.Store κ ν) (slot : SlotId) (value : ν) :
    policy.footprint (policy.setValue store slot value) = policy.footprint store := by
  cases policy <;> exact Arena.footprint_modify ..

/-- An access changes no footprint. -/
@[simp] theorem footprint_touch (store : policy.Store κ ν) (slot : SlotId) :
    policy.footprint (policy.touch store slot) = policy.footprint store := by
  cases policy with
  | lru => exact (Chain.sameValues_moveToNewest ..).footprint_eq
  | lfu =>
    change Arena.footprint (RankedStore.touch store slot).slots = _
    rw [RankedStore.touch]
    split
    · rfl
    · exact Arena.footprint_modify ..
  | lfru =>
    change Arena.footprint (BucketedStore.touch store slot).nodes = _
    rw [BucketedStore.touch]
    split
    · rfl
    · exact (Buckets.sameValues_promote ..).footprint_eq.trans (Arena.footprint_modify ..)

/-- A new entry takes the next slot. -/
theorem footprint_add (store : policy.Store κ ν) (key : κ) (value : ν) :
    (policy.add store key value).1.index = (policy.footprint store).next ∧
      policy.footprint (policy.add store key value).2 = (policy.footprint store).take := by
  cases policy with
  | lru => exact Chain.footprint_add ..
  | lfu => exact Arena.footprint_insert ..
  | lfru => exact Chain.footprint_add ..

/-- A removed entry gives its slot up. -/
theorem footprint_remove {store : policy.Store κ ν} {slot : SlotId}
    {entry : Entry κ ν policy.Metadata} (held : Policy.entry? policy store slot = some entry) :
    policy.footprint (policy.remove store slot).2 =
      (policy.footprint store).give slot.index := by
  have found := congrArg Option.isSome held
  cases policy with
  | lru =>
    have live := (Nodes.isLive_eq (RecencyStore.nodes store) slot).trans found
    exact (Chain.sameValues_detach ..).footprint_remove live
  | lfu =>
    have live : (RankedStore.slots store).isLive slot = true := found
    have removed : (RankedStore.slots store).remove slot =
        (some entry, ((RankedStore.slots store).remove slot).2) :=
      Prod.ext ((Arena.remove_answer ..).trans held) rfl
    change Arena.footprint (RankedStore.remove store slot).2.slots = _
    rw [RankedStore.remove, removed]
    exact Arena.footprint_remove live
  | lfru =>
    have held : BucketedStore.entry? store slot = some entry := held
    have live := (Nodes.isLive_eq (BucketedStore.nodes store) slot).trans found
    change Arena.footprint (BucketedStore.remove store slot).2.nodes = _
    rw [BucketedStore.remove, held]
    exact (Buckets.sameValues_detach ..).footprint_remove live

/-- A slot holds a listed entry or is free. -/
theorem Lists.slots_eq {store : policy.Store κ ν} {listing : Listing (Entry κ ν policy.Metadata)}
    (lists : policy.Lists store listing) :
    (policy.footprint store).slots =
      listing.length + (policy.footprint store).free.length := by
  have covers := lists.covers
  cases policy with
  | lru =>
    have wellFormed := RecencyStore.Lists.wellFormed lists
    have size := covers.size_eq wellFormed fun slot => (Nodes.isLive_eq _ slot).symm
    rw [← size]
    exact wellFormed.slots_size_eq
  | lfu =>
    have wellFormed := RankedStore.Lists.wellFormed lists
    have size := covers.size_eq wellFormed fun slot => rfl
    rw [← size]
    exact wellFormed.slots_size_eq
  | lfru =>
    have wellFormed := BucketedStore.Lists.wellFormed lists
    have size := covers.size_eq wellFormed fun slot => (Nodes.isLive_eq _ slot).symm
    rw [← size]
    exact wellFormed.slots_size_eq

end Policy

end EvictionCache
