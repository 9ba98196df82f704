import EvictionCache.Policy
import EvictionCache.Store.Bucketed
import EvictionCache.Store.Ranked
import EvictionCache.Store.Recency

/-!
# The store of a policy

Each policy keeps its entries in a store of its own kind. All kinds offer the same operations:
entries are added, accessed and removed by slot, and the first in the order of eviction can be
found and removed.
-/
namespace EvictionCache.Policy

/-- The kind of store in which a policy keeps its entries. -/
abbrev Store : Policy → Type → Type → Type
  | lru, κ, ν => RecencyStore κ ν
  | lfu, κ, ν => RankedStore κ ν
  | lfru, κ, ν => BucketedStore κ ν

variable {κ ν : Type}

/-- A store without entries. -/
def emptyStore : (policy : Policy) → policy.Store κ ν
  | lru => RecencyStore.empty
  | lfu => RankedStore.empty
  | lfru => BucketedStore.empty

/-- The entry in a slot. -/
def entry? : (policy : Policy) → policy.Store κ ν → SlotId → Option (Entry κ ν policy.Metadata)
  | lru, store, slot => RecencyStore.entry? store slot
  | lfu, store, slot => RankedStore.entry? store slot
  | lfru, store, slot => BucketedStore.entry? store slot

/-- Replaces the value of the entry in a slot. -/
def setValue : (policy : Policy) → policy.Store κ ν → SlotId → ν → policy.Store κ ν
  | lru, store, slot, value => RecencyStore.setValue store slot value
  | lfu, store, slot, value => RankedStore.setValue store slot value
  | lfru, store, slot, value => BucketedStore.setValue store slot value

/-- Counts an access to the entry in a slot. -/
def touch : (policy : Policy) → policy.Store κ ν → SlotId → policy.Store κ ν
  | lru, store, slot => RecencyStore.touch store slot
  | lfu, store, slot => RankedStore.touch store slot
  | lfru, store, slot => BucketedStore.touch store slot

/-- Stores a new entry. -/
def add : (policy : Policy) → policy.Store κ ν → κ → ν → SlotId × policy.Store κ ν
  | lru, store, key, value => RecencyStore.add store key value
  | lfu, store, key, value => RankedStore.add store key value
  | lfru, store, key, value => BucketedStore.add store key value

/-- Removes the entry in a slot. -/
def remove : (policy : Policy) → policy.Store κ ν → SlotId →
    Option (Entry κ ν policy.Metadata) × policy.Store κ ν
  | lru, store, slot => RecencyStore.remove store slot
  | lfu, store, slot => RankedStore.remove store slot
  | lfru, store, slot => BucketedStore.remove store slot

/-- Removes the first entry in the order of eviction. -/
def popFirst : (policy : Policy) → policy.Store κ ν →
    Option (Entry κ ν policy.Metadata) × policy.Store κ ν
  | lru, store => RecencyStore.popFirst store
  | lfu, store => RankedStore.popFirst store
  | lfru, store => BucketedStore.popFirst store

/-- The slot of the first entry in the order of eviction. -/
def first? : (policy : Policy) → policy.Store κ ν → Option SlotId
  | lru, store => RecencyStore.first? store
  | lfu, store => RankedStore.first? store
  | lfru, store => BucketedStore.first? store

/-- All entries in the order of eviction. -/
def entries : (policy : Policy) → policy.Store κ ν → List (Entry κ ν policy.Metadata)
  | lru, store => RecencyStore.entries store
  | lfu, store => RankedStore.entries store
  | lfru, store => BucketedStore.entries store

/-- Removes every entry. -/
def clearStore : (policy : Policy) → policy.Store κ ν → policy.Store κ ν
  | lru, _ => RecencyStore.empty
  | lfu, store => RankedStore.clear store
  | lfru, _ => BucketedStore.empty

/-- The figures shown in a rendering of the store. -/
def summary : (policy : Policy) → policy.Store κ ν → List (String × Nat)
  | lru, store => RecencyStore.summary store
  | lfu, store => RankedStore.summary store
  | lfru, store => BucketedStore.summary store

/-- The figures about counts after an access to the entry in a slot, given the store after the
access. -/
def recordAccess : (policy : Policy) → policy.Usage → policy.Store κ ν → SlotId → policy.Usage
  | lru, usage, _, _ => usage
  | lfu, usage, store, slot =>
    match RankedStore.entry? store slot with
    | none => usage
    | some entry => RankedUsage.recordIncrement usage entry.metadata.frequency
  | lfru, usage, store, slot =>
    match BucketedStore.entry? store slot with
    | none => usage
    | some _ =>
      (BucketUsage.recordIncrement usage).observe (BucketedStore.buckets store).size

/-- The figures about counts after entries were added or removed, given the store after that. -/
def recordShape : (policy : Policy) → policy.Usage → policy.Store κ ν → policy.Usage
  | lru, usage, _ => usage
  | lfu, usage, _ => usage
  | lfru, usage, store => BucketUsage.observe usage (BucketedStore.buckets store).size

end EvictionCache.Policy
