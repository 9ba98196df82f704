import EvictionCache.Proofs.Store.Bucketed
import EvictionCache.Proofs.Store.Ranked
import EvictionCache.Proofs.Store.Recency
import EvictionCache.Store.Basic

/-!
# Laws of the store of a policy

Under every policy a store lists its entries in the order of eviction (`Policy.Lists`), and the
operations do the same to the listing: an access takes the entry out and places it anew with
what it carries then, a new entry is placed in a slot that was vacant, and the first entry
listed is the one that is evicted. Everything above the stores rests on these laws alone.
-/
namespace EvictionCache.Policy

variable {κ ν : Type}

/-- What the next entry of a store carries. -/
def fresh : (policy : Policy) → policy.Store κ ν → policy.Metadata
  | lru, _ => ()
  | lfu, store => .initial (RankedStore.nextSequence store)
  | lfru, _ => .initial

/-- A store lists its entries in the order of eviction. -/
def Lists : (policy : Policy) → policy.Store κ ν → Listing (Entry κ ν policy.Metadata) → Prop
  | lru, store, listing => RecencyStore.Lists store listing
  | lfu, store, listing => RankedStore.Lists store listing
  | lfru, store, listing => BucketedStore.Lists store listing

/-- A store without entries lists nothing. -/
theorem lists_emptyStore (policy : Policy) :
    policy.Lists (policy.emptyStore : policy.Store κ ν) [] := by
  cases policy with
  | lru => exact RecencyStore.lists_empty
  | lfu => exact RankedStore.lists_nil rfl rfl
  | lfru => exact BucketedStore.lists_empty

/-- A cleared store lists nothing. -/
theorem lists_clearStore (policy : Policy) (store : policy.Store κ ν) :
    policy.Lists (policy.clearStore store) [] := by
  cases policy with
  | lru => exact RecencyStore.lists_empty
  | lfu => exact RankedStore.lists_nil rfl rfl
  | lfru => exact BucketedStore.lists_empty

/-- Clearing does not change what the next entry carries. -/
theorem fresh_clearStore (policy : Policy) (store : policy.Store κ ν) :
    policy.fresh (policy.clearStore store) = policy.fresh store := by
  cases policy <;> rfl

/-- Replacing a value does not change what the next entry carries. -/
theorem fresh_setValue (policy : Policy) (store : policy.Store κ ν) (slot : SlotId)
    (value : ν) : policy.fresh (policy.setValue store slot value) = policy.fresh store := by
  cases policy <;> rfl

/-- An access does not change what the next entry carries. -/
theorem fresh_touch (policy : Policy) (store : policy.Store κ ν) (slot : SlotId) :
    policy.fresh (policy.touch store slot) = policy.fresh store := by
  cases policy with
  | lru => rfl
  | lfu => exact congrArg Rank.initial (RankedStore.nextSequence_touch store slot)
  | lfru => rfl

/-- Storing an entry moves on to what the one after it carries. -/
theorem fresh_add (policy : Policy) (store : policy.Store κ ν) (key : κ) (value : ν) :
    policy.fresh (policy.add store key value).2 = policy.following (policy.fresh store) := by
  cases policy <;> rfl

/-- Removing an entry does not change what the next one carries. -/
theorem fresh_remove (policy : Policy) (store : policy.Store κ ν) (slot : SlotId) :
    policy.fresh (policy.remove store slot).2 = policy.fresh store := by
  cases policy with
  | lru => rfl
  | lfu => exact congrArg Rank.initial (RankedStore.nextSequence_remove store slot)
  | lfru => rfl

namespace Lists

variable {policy : Policy} {store : policy.Store κ ν}
  {listing : Listing (Entry κ ν policy.Metadata)} {slot : SlotId}
  {entry : Entry κ ν policy.Metadata}

/-- Exactly the occupied slots are listed. -/
theorem covers (lists : policy.Lists store listing) : listing.Covers (policy.entry? store) := by
  cases policy with
  | lru => exact RecencyStore.Lists.covers lists
  | lfu => exact RankedStore.Lists.covers lists
  | lfru => exact BucketedStore.Lists.covers lists

/-- The listing is in the order of eviction. -/
theorem ordered (lists : policy.Lists store listing) :
    policy.Ordered (listing.map Prod.snd) := by
  cases policy with
  | lru => exact List.pairwise_of_forall fun _ _ => id
  | lfu => exact RankedStore.Lists.ordered lists
  | lfru => exact BucketedStore.Lists.ordered lists

/-- The entries are those of the listing. -/
theorem entries_eq (lists : policy.Lists store listing) :
    policy.entries store = listing.map Prod.snd := by
  cases policy with
  | lru => exact RecencyStore.Lists.entries_eq lists
  | lfu => exact RankedStore.Lists.entries_eq lists
  | lfru => exact BucketedStore.Lists.entries_eq lists

/-- The first entry is the first listed. -/
theorem first?_eq (lists : policy.Lists store listing) :
    policy.first? store = listing.head?.map Prod.fst := by
  cases policy with
  | lru => exact RecencyStore.Lists.first?_eq lists
  | lfu => exact RankedStore.Lists.first?_eq lists
  | lfru => exact BucketedStore.Lists.first?_eq lists

/-- Replacing a value changes no order. -/
theorem setValue (lists : policy.Lists store listing) (slot : SlotId) (value : ν) :
    policy.Lists (policy.setValue store slot value)
      (listing.mapAt slot fun entry => entry.withValue value) := by
  cases policy with
  | lru => exact RecencyStore.Lists.setValue lists slot value
  | lfu => exact RankedStore.Lists.setValue lists slot value
  | lfru => exact BucketedStore.Lists.setValue lists slot value

/-- An access places the entry anew with what it carries then. -/
theorem touch (lists : policy.Lists store listing) (member : (slot, entry) ∈ listing) :
    policy.Lists (policy.touch store slot) (policy.placeCell
      (slot, entry.withMetadata (policy.accessed entry.metadata)) (listing.without slot)) := by
  cases policy with
  | lru =>
    rw [placeCell_lru]
    exact RecencyStore.Lists.touch lists member
  | lfu => exact RankedStore.Lists.touch lists member
  | lfru => exact BucketedStore.Lists.touch lists member

/-- A new entry is placed in a slot that was vacant. -/
theorem add (lists : policy.Lists store listing) (key : κ) (value : ν) :
    policy.Lists (policy.add store key value).2 (policy.placeCell
      ((policy.add store key value).1, ⟨key, value, policy.fresh store⟩) listing) ∧
      policy.entry? store (policy.add store key value).1 = none := by
  cases policy with
  | lru =>
    rw [placeCell_lru]
    exact RecencyStore.Lists.add lists key value
  | lfu => exact RankedStore.Lists.add lists key value
  | lfru => exact BucketedStore.Lists.add lists key value

/-- Removing an entry takes it out of the listing. -/
theorem remove (lists : policy.Lists store listing) (member : (slot, entry) ∈ listing) :
    (policy.remove store slot).1 = some entry ∧
      policy.Lists (policy.remove store slot).2 (listing.without slot) := by
  cases policy with
  | lru => exact RecencyStore.Lists.remove lists member
  | lfu => exact RankedStore.Lists.remove lists member
  | lfru => exact BucketedStore.Lists.remove lists member

/-- Removing a listed slot answers with its entry. -/
theorem remove_eq (lists : policy.Lists store listing) (member : (slot, entry) ∈ listing) :
    policy.remove store slot = (some entry, (policy.remove store slot).2) :=
  Prod.ext (lists.remove member).1 rfl

/-- There is nothing to evict from a store that lists nothing. -/
theorem popFirst_nil (lists : policy.Lists store []) : policy.popFirst store = (none, store) := by
  cases policy with
  | lru => exact RecencyStore.Lists.popFirst_nil lists
  | lfu => exact RankedStore.Lists.popFirst_nil lists
  | lfru => exact BucketedStore.Lists.popFirst_nil lists

/-- Evicting removes the first entry listed. -/
theorem popFirst_cons (lists : policy.Lists store ((slot, entry) :: listing)) :
    policy.popFirst store = policy.remove store slot := by
  cases policy with
  | lru => exact RecencyStore.Lists.popFirst_cons lists
  | lfu => exact RankedStore.Lists.popFirst_cons lists
  | lfru => exact BucketedStore.Lists.popFirst_cons lists

end Lists

end EvictionCache.Policy
