import EvictionCache.Entry
import EvictionCache.Frequency.Buckets
import EvictionCache.Frequency.Rank

/-!
# Entries in buckets of equal count

Every entry carries its access count and is linked into the bucket of that count, where the
order is by last access. An access moves the entry to the bucket of the next count.
-/
namespace EvictionCache

/-- Entries kept by count, and within a count least recently used first. -/
structure BucketedStore (κ ν : Type) where
  /-- The entries with their links. -/
  nodes : Nodes (Entry κ ν AccessCount)
  /-- The order of use within each count. -/
  buckets : Buckets

namespace BucketedStore

variable {κ ν : Type}

/-- A store without entries. -/
def empty : BucketedStore κ ν := ⟨.empty, .empty⟩

/-- The entry in a slot. -/
def entry? (store : BucketedStore κ ν) (slot : SlotId) : Option (Entry κ ν AccessCount) :=
  store.nodes.value? slot

/-- Replaces the value of the entry in a slot. -/
def setValue (store : BucketedStore κ ν) (slot : SlotId) (value : ν) : BucketedStore κ ν :=
  { store with nodes := store.nodes.modifyValue slot fun entry => entry.withValue value }

/-- An access raises the count of the entry and makes it the most recently used of its new
bucket. -/
def touch (store : BucketedStore κ ν) (slot : SlotId) : BucketedStore κ ν :=
  match store.entry? slot with
  | none => store
  | some entry =>
    let count := entry.metadata.increment
    let nodes := store.nodes.modifyValue slot fun entry => entry.withMetadata count
    let (buckets, nodes) :=
      store.buckets.promote nodes slot entry.metadata.frequency count.frequency
    ⟨nodes, buckets⟩

/-- Stores a new entry with a single access. -/
def add (store : BucketedStore κ ν) (key : κ) (value : ν) : SlotId × BucketedStore κ ν :=
  let count := AccessCount.initial
  let (slot, buckets, nodes) := store.buckets.add store.nodes count.frequency ⟨key, value, count⟩
  (slot, ⟨nodes, buckets⟩)

/-- Removes the entry in a slot. -/
def remove (store : BucketedStore κ ν) (slot : SlotId) :
    Option (Entry κ ν AccessCount) × BucketedStore κ ν :=
  match store.entry? slot with
  | none => (none, store)
  | some entry =>
    let (removed, buckets, nodes) :=
      store.buckets.remove store.nodes slot entry.metadata.frequency
    (removed, ⟨nodes, buckets⟩)

/-- Removes the least recently used entry of the lowest count. -/
def popFirst (store : BucketedStore κ ν) :
    Option (Entry κ ν AccessCount) × BucketedStore κ ν :=
  let (entry, buckets, nodes) := store.buckets.popLowest store.nodes
  (entry, ⟨nodes, buckets⟩)

/-- The slot of the least recently used entry of the lowest count. -/
def first? (store : BucketedStore κ ν) : Option SlotId := store.buckets.lowest?

/-- All entries by increasing count, and within a count least recently used first. -/
def entries (store : BucketedStore κ ν) : List (Entry κ ν AccessCount) :=
  store.buckets.values store.nodes

/-- The figures shown in a rendering of the store. -/
def summary (store : BucketedStore κ ν) : List (String × Nat) :=
  [("len", store.nodes.size), ("buckets", store.buckets.size)]

end BucketedStore

end EvictionCache
