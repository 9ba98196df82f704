import EvictionCache.Proofs.Checked.Frequency
import EvictionCache.Proofs.Store.Basic

/-!
# Stores that check what they rely on

The checked operations of a store demand the entry that they work on. What a store lists can be
accessed, removed and walked through without a fault, and something can always be added.
-/
namespace EvictionCache

variable {κ ν : Type}

namespace RecencyStore

/-- An access makes the entry the most recently used. -/
def touchChecked (store : RecencyStore κ ν) (slot : SlotId) :
    Except Fault (RecencyStore κ ν) := do
  let (chain, nodes) ← store.chain.moveToNewestChecked [] store.nodes slot
  return ⟨chain, nodes⟩

/-- Stores a new entry as the most recently used. -/
def addChecked (store : RecencyStore κ ν) (key : κ) (value : ν) :
    Except Fault (SlotId × RecencyStore κ ν) := do
  let (slot, chain, nodes) ← store.chain.addChecked [] store.nodes ⟨key, value, ()⟩
  return (slot, ⟨chain, nodes⟩)

/-- Removes the entry in a slot. -/
def removeChecked (store : RecencyStore κ ν) (slot : SlotId) :
    Except Fault (Entry κ ν Unit × RecencyStore κ ν) := do
  let (entry, chain, nodes) ← store.chain.removeChecked [] store.nodes slot
  return (entry, ⟨chain, nodes⟩)

/-- Removes the least recently used entry. -/
def popFirstChecked (store : RecencyStore κ ν) :
    Except Fault (Option (Entry κ ν Unit) × RecencyStore κ ν) := do
  let (entry, chain, nodes) ← store.chain.removeOldestChecked [] store.nodes
  return (entry, ⟨chain, nodes⟩)

/-- All entries, least recently used first. -/
def entriesChecked (store : RecencyStore κ ν) : Except Fault (List (Entry κ ν Unit)) :=
  store.chain.valuesChecked store.nodes

namespace Lists

variable {store : RecencyStore κ ν} {listing : Listing (Entry κ ν Unit)} {slot : SlotId}
  {entry : Entry κ ν Unit}

/-- The chain spells the slots that are listed. -/
theorem mem_slots (member : (slot, entry) ∈ listing) : slot ∈ (listing.map Prod.fst).reverse :=
  List.mem_reverse.mpr (List.mem_map_of_mem member)

/-- A listed entry can be accessed. -/
theorem touchChecked_eq (lists : store.Lists listing) (member : (slot, entry) ∈ listing) :
    store.touchChecked slot = .ok (store.touch slot) := by
  rw [touchChecked, lists.spells.moveToNewestChecked_eq (mem_slots member) .nil]
  rfl

/-- An entry can always be added. -/
theorem addChecked_eq (lists : store.Lists listing) (key : κ) (value : ν) :
    store.addChecked key value = .ok (store.add key value) := by
  rw [addChecked, lists.spells.addChecked_eq lists.wellFormed .nil]
  rfl

/-- A listed entry can be removed. -/
theorem removeChecked_eq (lists : store.Lists listing) (member : (slot, entry) ∈ listing) :
    store.removeChecked slot = .ok (entry, (store.remove slot).2) := by
  have held := (lists.covers.mem_iff slot entry).mp member
  rw [removeChecked, lists.spells.removeChecked_eq lists.wellFormed (mem_slots member)
    .nil held]
  rfl

/-- The first entry can be removed. -/
theorem popFirstChecked_eq (lists : store.Lists listing) :
    store.popFirstChecked = .ok store.popFirst := by
  rw [popFirstChecked, lists.spells.removeOldestChecked_eq lists.wellFormed .nil]
  rfl

/-- The walk through the entries meets no fault. -/
theorem entriesChecked_eq (lists : store.Lists listing) :
    store.entriesChecked = .ok store.entries :=
  lists.spells.valuesChecked_eq

end Lists

end RecencyStore

namespace RankedStore

/-- An access raises the count of the entry and ranks it anew. -/
def touchChecked (store : RankedStore κ ν) (slot : SlotId) : Except Fault (RankedStore κ ν) := do
  let entry ← demand .vacantSlot (store.entry? slot)
  let rank := entry.metadata.increment
  let ranking ← store.ranking.rerankChecked entry.metadata rank
  return { store with
    slots := store.slots.modify slot fun entry => entry.withMetadata rank
    ranking := ranking }

/-- Stores a new entry with a single access and the next sequence number. -/
def addChecked (store : RankedStore κ ν) (key : κ) (value : ν) :
    Except Fault (SlotId × RankedStore κ ν) := do
  let rank := Rank.initial store.nextSequence
  let (slot, slots) ← store.slots.insertChecked ⟨key, value, rank⟩
  let ranking ← store.ranking.insertChecked rank slot
  return (slot, ⟨slots, ranking, store.nextSequence + 1⟩)

/-- Removes the entry in a slot. -/
def removeChecked (store : RankedStore κ ν) (slot : SlotId) :
    Except Fault (Entry κ ν Rank × RankedStore κ ν) := do
  let (entry, slots) ← store.slots.removeChecked slot
  let ranking ← store.ranking.eraseChecked entry.metadata
  return (entry, { store with slots, ranking })

/-- Removes the entry of the lowest rank. -/
def popFirstChecked (store : RankedStore κ ν) :
    Except Fault (Option (Entry κ ν Rank) × RankedStore κ ν) :=
  match store.ranking.popFirst with
  | (none, _) => return (none, store)
  | (some slot, ranking) => do
    let (entry, slots) ← store.slots.removeChecked slot
    return (some entry, { store with slots, ranking })

/-- All entries, lowest rank first. Every slot of the ranking must be occupied. -/
def entriesChecked (store : RankedStore κ ν) : Except Fault (List (Entry κ ν Rank)) :=
  store.ranking.slots.mapM fun slot => demand .vacantSlot (store.slots.get? slot)

namespace Lists

variable {store : RankedStore κ ν} {listing : Listing (Entry κ ν Rank)} {slot : SlotId}
  {entry : Entry κ ν Rank}

/-- A rank that no entry carries is not in the ranking. -/
theorem getElem?_eq_none (lists : store.Lists listing) {rank : Rank}
    (fresh : ∀ cell ∈ listing, cell.2.metadata ≠ rank) : store.ranking.ranks[rank]? = none := by
  cases found : store.ranking.ranks[rank]? with
  | none => rfl
  | some slot =>
    obtain ⟨entry, member, same⟩ := (lists.ranked rank slot).mp found
    exact absurd same (fresh _ member)

/-- A listed entry can be accessed: its new rank is its old one or carried by no entry. -/
theorem touchChecked_eq (lists : store.Lists listing) (member : (slot, entry) ∈ listing) :
    store.touchChecked slot = .ok (store.touch slot) := by
  have held := (lists.covers.mem_iff slot entry).mp member
  have fresh : entry.metadata ≠ entry.metadata.increment →
      store.ranking.ranks[entry.metadata.increment]? = none := by
    intro moved
    refine lists.getElem?_eq_none fun cell here same => ?_
    by_cases own : cell.1 = slot
    · exact moved (((lists.metadata_eq_iff member cell here).mpr own).symm.trans same)
    · exact lists.metadata_ne_increment member (Listing.mem_without.mpr ⟨here, own⟩) same
  rw [touchChecked, demand_bind held, RankedStore.touch, held]
  dsimp only
  rw [Ranking.rerankChecked_eq (lists.getElem?_eq member) fresh]
  rfl

/-- An entry can always be added: its rank was not given to another. -/
theorem addChecked_eq (lists : store.Lists listing) (key : κ) (value : ν) :
    store.addChecked key value = .ok (store.add key value) := by
  have fresh : store.ranking.ranks[Rank.initial store.nextSequence]? = none :=
    lists.getElem?_eq_none fun cell here same =>
      Nat.ne_of_lt (lists.next cell here) (congrArg Rank.sequence same)
  rw [addChecked, lists.wellFormed.insertChecked_eq, ok_bind]
  dsimp only
  rw [Ranking.insertChecked_eq fresh]
  rfl

/-- A listed entry can be removed. -/
theorem removeChecked_eq (lists : store.Lists listing) (member : (slot, entry) ∈ listing) :
    store.removeChecked slot = .ok (entry, (store.remove slot).2) := by
  have held := (lists.covers.mem_iff slot entry).mp member
  obtain ⟨slots, removed⟩ := lists.arena_remove member
  rw [removeChecked, lists.wellFormed.removeChecked_eq held, RankedStore.remove, removed, ok_bind]
  dsimp only
  rw [Ranking.eraseChecked_eq (lists.getElem?_eq member)]
  rfl

/-- The first entry can be removed. -/
theorem popFirstChecked_eq (lists : store.Lists listing) :
    store.popFirstChecked = .ok store.popFirst := by
  rw [popFirstChecked, popFirst, Ranking.popFirst, lists.minKey?_eq]
  cases listing with
  | nil => rfl
  | cons cell rest =>
    have held := (lists.covers.mem_iff ..).mp (List.mem_cons_self (a := cell))
    have listed := lists.getElem?_eq (List.mem_cons_self (a := cell))
    obtain ⟨slots, removed⟩ := lists.arena_remove (List.mem_cons_self (a := cell))
    simp only [List.head?_cons, Option.map_some, listed]
    rw [lists.wellFormed.removeChecked_eq held, removed]
    rfl

/-- The walk through the entries drops none. -/
theorem entriesChecked_eq (lists : store.Lists listing) :
    store.entriesChecked = .ok store.entries := by
  have found : ∀ cell ∈ listing,
      demand .vacantSlot (store.slots.get? cell.1) = .ok cell.2 := fun cell member => by
    rw [show store.slots.get? cell.1 = some cell.2 from (lists.covers.mem_iff ..).mp member, demand]
  have slots : store.ranking.slots = listing.map Prod.fst := by
    rw [Ranking.slots, lists.toList_eq, List.map_map]
    rfl
  rw [entriesChecked, slots, List.mapM_map, lists.entries_eq]
  exact mapM_eq_ok found

end Lists

end RankedStore

namespace BucketedStore

/-- An access raises the count of the entry and makes it the most recently used of its new
bucket. -/
def touchChecked (store : BucketedStore κ ν) (slot : SlotId) :
    Except Fault (BucketedStore κ ν) := do
  let entry ← demand .vacantSlot (store.entry? slot)
  let count := entry.metadata.increment
  let nodes := store.nodes.modifyValue slot fun entry => entry.withMetadata count
  let (buckets, nodes) ←
    store.buckets.promoteChecked nodes slot entry.metadata.frequency count.frequency
  return ⟨nodes, buckets⟩

/-- Stores a new entry with a single access. -/
def addChecked (store : BucketedStore κ ν) (key : κ) (value : ν) :
    Except Fault (SlotId × BucketedStore κ ν) := do
  let count := AccessCount.initial
  let (slot, buckets, nodes) ←
    store.buckets.addChecked store.nodes count.frequency ⟨key, value, count⟩
  return (slot, ⟨nodes, buckets⟩)

/-- Removes the entry in a slot. -/
def removeChecked (store : BucketedStore κ ν) (slot : SlotId) :
    Except Fault (Entry κ ν AccessCount × BucketedStore κ ν) := do
  let entry ← demand .vacantSlot (store.entry? slot)
  let (removed, buckets, nodes) ←
    store.buckets.removeChecked store.nodes slot entry.metadata.frequency
  return (removed, ⟨nodes, buckets⟩)

/-- Removes the least recently used entry of the lowest count. -/
def popFirstChecked (store : BucketedStore κ ν) :
    Except Fault (Option (Entry κ ν AccessCount) × BucketedStore κ ν) := do
  let (entry, buckets, nodes) ← store.buckets.popLowestChecked store.nodes
  return (entry, ⟨nodes, buckets⟩)

/-- All entries by increasing count, and within a count least recently used first. -/
def entriesChecked (store : BucketedStore κ ν) : Except Fault (List (Entry κ ν AccessCount)) :=
  store.buckets.valuesChecked store.nodes

namespace Lists

variable {store : BucketedStore κ ν} {listing : Listing (Entry κ ν AccessCount)}
  {slot : SlotId} {entry : Entry κ ν AccessCount}

/-- A listed entry can be accessed. -/
theorem touchChecked_eq (lists : store.Lists listing) (member : (slot, entry) ∈ listing) :
    store.touchChecked slot = .ok (store.touch slot) := by
  have held := (lists.covers.mem_iff slot entry).mp member
  have counted := lists.spells.modifyValue slot fun held =>
    held.withMetadata entry.metadata.increment
  have listed := mem_slotsOf.mpr ⟨entry, member, rfl⟩
  rw [touchChecked, demand_bind held, BucketedStore.touch, held]
  dsimp only
  rw [counted.promoteChecked_eq listed]
  rfl

/-- An entry can always be added. -/
theorem addChecked_eq (lists : store.Lists listing) (key : κ) (value : ν) :
    store.addChecked key value = .ok (store.add key value) := by
  dsimp only [addChecked]
  rw [lists.spells.addChecked_eq lists.wellFormed]
  rfl

/-- A listed entry can be removed. -/
theorem removeChecked_eq (lists : store.Lists listing) (member : (slot, entry) ∈ listing) :
    store.removeChecked slot = .ok (entry, (store.remove slot).2) := by
  have held := (lists.covers.mem_iff slot entry).mp member
  have listed := mem_slotsOf.mpr ⟨entry, member, rfl⟩
  rw [removeChecked, demand_bind held,
    lists.spells.removeChecked_eq lists.wellFormed listed held, lists.remove_eq member]
  rfl

/-- The first entry can be removed. -/
theorem popFirstChecked_eq (lists : store.Lists listing) :
    store.popFirstChecked = .ok store.popFirst := by
  rw [popFirstChecked, lists.spells.popLowestChecked_eq lists.wellFormed]
  rfl

/-- The walks through the buckets meet no fault. -/
theorem entriesChecked_eq (lists : store.Lists listing) :
    store.entriesChecked = .ok store.entries :=
  lists.spells.valuesChecked_eq

end Lists

end BucketedStore

namespace Policy

/-- The entry in a slot, which must be occupied. -/
def entryChecked (policy : Policy) (store : policy.Store κ ν) (slot : SlotId) :
    Except Fault (Entry κ ν policy.Metadata) :=
  demand .vacantSlot (policy.entry? store slot)

/-- Replaces the value of the entry in a slot, which must be occupied. -/
def setValueChecked (policy : Policy) (store : policy.Store κ ν) (slot : SlotId) (value : ν) :
    Except Fault (policy.Store κ ν) := do
  let _ ← policy.entryChecked store slot
  return policy.setValue store slot value

/-- Counts an access to the entry in a slot. -/
def touchChecked : (policy : Policy) → policy.Store κ ν → SlotId →
    Except Fault (policy.Store κ ν)
  | lru, store, slot => RecencyStore.touchChecked store slot
  | lfu, store, slot => RankedStore.touchChecked store slot
  | lfru, store, slot => BucketedStore.touchChecked store slot

/-- Stores a new entry. -/
def addChecked : (policy : Policy) → policy.Store κ ν → κ → ν →
    Except Fault (SlotId × policy.Store κ ν)
  | lru, store, key, value => RecencyStore.addChecked store key value
  | lfu, store, key, value => RankedStore.addChecked store key value
  | lfru, store, key, value => BucketedStore.addChecked store key value

/-- Removes the entry in a slot. -/
def removeChecked : (policy : Policy) → policy.Store κ ν → SlotId →
    Except Fault (Entry κ ν policy.Metadata × policy.Store κ ν)
  | lru, store, slot => RecencyStore.removeChecked store slot
  | lfu, store, slot => RankedStore.removeChecked store slot
  | lfru, store, slot => BucketedStore.removeChecked store slot

/-- Removes the first entry in the order of eviction. -/
def popFirstChecked : (policy : Policy) → policy.Store κ ν →
    Except Fault (Option (Entry κ ν policy.Metadata) × policy.Store κ ν)
  | lru, store => RecencyStore.popFirstChecked store
  | lfu, store => RankedStore.popFirstChecked store
  | lfru, store => BucketedStore.popFirstChecked store

/-- The slot of the first entry in the order of eviction. -/
def firstChecked : (policy : Policy) → policy.Store κ ν → Except Fault (Option SlotId)
  | lru, store => return RecencyStore.first? store
  | lfu, store => return RankedStore.first? store
  | lfru, store => (BucketedStore.buckets store).lowestChecked

/-- All entries in the order of eviction. -/
def entriesChecked : (policy : Policy) → policy.Store κ ν →
    Except Fault (List (Entry κ ν policy.Metadata))
  | lru, store => RecencyStore.entriesChecked store
  | lfu, store => RankedStore.entriesChecked store
  | lfru, store => BucketedStore.entriesChecked store

/-- Every chain of a store can be walked along. -/
def Walkable : (policy : Policy) → policy.Store κ ν → Prop
  | lru, store => (RecencyStore.chain store).Walkable (RecencyStore.nodes store)
  | lfu, _ => True
  | lfru, store => ∀ (count : Nat) (chain : Chain),
    (BucketedStore.buckets store).chains[count]? = some chain →
      chain.Walkable (BucketedStore.nodes store)

namespace Lists

variable {policy : Policy} {store : policy.Store κ ν}
  {listing : Listing (Entry κ ν policy.Metadata)} {slot : SlotId}
  {entry : Entry κ ν policy.Metadata}

/-- A listed entry can be read. -/
theorem entryChecked_eq (lists : policy.Lists store listing) (member : (slot, entry) ∈ listing) :
    policy.entryChecked store slot = .ok entry := by
  rw [entryChecked, (lists.covers.mem_iff slot entry).mp member, demand]

/-- The value of a listed entry can be replaced. -/
theorem setValueChecked_eq (lists : policy.Lists store listing) (member : (slot, entry) ∈ listing)
    (value : ν) :
    policy.setValueChecked store slot value = .ok (policy.setValue store slot value) := by
  rw [setValueChecked, lists.entryChecked_eq member]
  rfl

/-- A listed entry can be accessed. -/
theorem touchChecked_eq (lists : policy.Lists store listing) (member : (slot, entry) ∈ listing) :
    policy.touchChecked store slot = .ok (policy.touch store slot) := by
  cases policy with
  | lru => exact RecencyStore.Lists.touchChecked_eq lists member
  | lfu => exact RankedStore.Lists.touchChecked_eq lists member
  | lfru => exact BucketedStore.Lists.touchChecked_eq lists member

/-- An entry can always be added. -/
theorem addChecked_eq (lists : policy.Lists store listing) (key : κ) (value : ν) :
    policy.addChecked store key value = .ok (policy.add store key value) := by
  cases policy with
  | lru => exact RecencyStore.Lists.addChecked_eq lists key value
  | lfu => exact RankedStore.Lists.addChecked_eq lists key value
  | lfru => exact BucketedStore.Lists.addChecked_eq lists key value

/-- A listed entry can be removed. -/
theorem removeChecked_eq (lists : policy.Lists store listing) (member : (slot, entry) ∈ listing) :
    policy.removeChecked store slot = .ok (entry, (policy.remove store slot).2) := by
  cases policy with
  | lru => exact RecencyStore.Lists.removeChecked_eq lists member
  | lfu => exact RankedStore.Lists.removeChecked_eq lists member
  | lfru => exact BucketedStore.Lists.removeChecked_eq lists member

/-- The first entry can be removed. -/
theorem popFirstChecked_eq (lists : policy.Lists store listing) :
    policy.popFirstChecked store = .ok (policy.popFirst store) := by
  cases policy with
  | lru => exact RecencyStore.Lists.popFirstChecked_eq lists
  | lfu => exact RankedStore.Lists.popFirstChecked_eq lists
  | lfru => exact BucketedStore.Lists.popFirstChecked_eq lists

/-- The first entry can be found. -/
theorem firstChecked_eq (lists : policy.Lists store listing) :
    policy.firstChecked store = .ok (policy.first? store) := by
  cases policy with
  | lru | lfu => rfl
  | lfru => exact (BucketedStore.Lists.spells lists).lowestChecked_eq

/-- The walk through the entries meets no fault. -/
theorem entriesChecked_eq (lists : policy.Lists store listing) :
    policy.entriesChecked store = .ok (policy.entries store) := by
  cases policy with
  | lru => exact RecencyStore.Lists.entriesChecked_eq lists
  | lfu => exact RankedStore.Lists.entriesChecked_eq lists
  | lfru => exact BucketedStore.Lists.entriesChecked_eq lists

/-- The chains of a store can be walked along. -/
theorem walkable (lists : policy.Lists store listing) : policy.Walkable store := by
  cases policy with
  | lru => exact (RecencyStore.Lists.spells lists).walkable
  | lfu => trivial
  | lfru =>
    intro count chain found
    exact ((BucketedStore.Lists.spells lists).spells_of_getElem? found).walkable

end Lists

end Policy

end EvictionCache
