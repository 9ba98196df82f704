import EvictionCache.Cache.Basic
import EvictionCache.Proofs.Cache.Index
import EvictionCache.Proofs.Store.Basic

/-!
# The listing of a cache

A cache is in order when its store lists its entries in the order of eviction, its index finds
exactly the keys of the listing, and no more entries are listed than fit. Each change that the
operations make to a cache has a law here that says how the listing changes with it; metrics
take no part.
-/
namespace EvictionCache

namespace Listing

variable {κ ν μ : Type} {listing other : Listing (Entry κ ν μ)}

/-- The slots with the keys under which their entries were stored. -/
def keys (listing : Listing (Entry κ ν μ)) : Listing κ :=
  listing.map fun cell => (cell.1, cell.2.key)

/-- A slot is listed with the key of its entry. -/
theorem mem_keys {slot : SlotId} {key : κ} :
    (slot, key) ∈ listing.keys ↔ ∃ entry, (slot, entry) ∈ listing ∧ entry.key = key := by
  simp [keys]

/-- The same slots are listed with their keys as with their entries. -/
@[simp] theorem map_fst_keys (listing : Listing (Entry κ ν μ)) :
    listing.keys.map Prod.fst = listing.map Prod.fst := by
  simp [keys]

/-- There are as many keys as entries. -/
@[simp] theorem length_keys (listing : Listing (Entry κ ν μ)) :
    listing.keys.length = listing.length := List.length_map _

/-- Replacing a value leaves every slot with its key. -/
theorem keys_mapAt (listing : Listing (Entry κ ν μ)) (slot : SlotId) (value : ν) :
    Listing.keys (listing.mapAt slot fun entry => entry.withValue value) = listing.keys := by
  rw [keys, keys, mapAt, List.map_map]
  apply List.map_congr_left
  intro cell _
  simp only [Function.comp_apply]
  split <;> rfl

end Listing

namespace Cache

variable {policy : Policy} {κ ν : Type} [BEq κ] [Hashable κ]

/-- A cache with its entries in the order of eviction, each under its key. -/
structure Lists (cache : Cache policy κ ν) (listing : Listing (Entry κ ν policy.Metadata)) :
    Prop where
  /-- The store lists the entries. -/
  store : policy.Lists cache.store listing
  /-- The index finds their keys. -/
  index : Indexes cache.index listing.keys
  /-- The entries fit. -/
  bounded : listing.length ≤ cache.capacity

/-- A cache without entries lists nothing. -/
theorem lists_ofConfig [EquivBEq κ] [LawfulHashable κ] (config : CacheConfig) :
    (ofConfig config : Cache policy κ ν).Lists [] where
  store := policy.lists_emptyStore
  index := .nil Std.HashMap.isEmpty_emptyWithCapacity
  bounded := Nat.zero_le _

namespace Lists

variable {cache : Cache policy κ ν} {listing : Listing (Entry κ ν policy.Metadata)}
  {slot : SlotId} {entry : Entry κ ν policy.Metadata}

/-- Metrics take no part. -/
theorem withMetrics (lists : cache.Lists listing) (metrics : Metrics policy) :
    Lists { cache with metrics } listing :=
  ⟨lists.store, lists.index, lists.bounded⟩

/-- What is listed with an entry is what its slot holds. -/
theorem mem_iff (lists : cache.Lists listing) :
    (slot, entry) ∈ listing ↔ cache.entryAt? slot = some entry :=
  lists.store.covers.mem_iff slot entry

/-- A listed slot holds the entry that it is listed with. -/
theorem entryAt?_eq (lists : cache.Lists listing) (member : (slot, entry) ∈ listing) :
    cache.entryAt? slot = some entry := lists.mem_iff.mp member

/-- There are as many entries as keys. -/
theorem size_eq (lists : cache.Lists listing) : cache.size = listing.length := by
  rw [size, lists.index.size_eq, Listing.length_keys]

/-- No more keys are found than fit. -/
theorem size_le (lists : cache.Lists listing) : cache.size ≤ cache.capacity := by
  rw [lists.size_eq]
  exact lists.bounded

/-- The entries of a store may take other places or values if they keep their slots and keys. -/
theorem replaceStore (lists : cache.Lists listing) {store : policy.Store κ ν}
    {others : Listing (Entry κ ν policy.Metadata)} (stored : policy.Lists store others)
    (same : others.keys.Perm listing.keys) : Lists { cache with store } others where
  store := stored
  index := lists.index.perm same
  bounded := by
    rw [← Listing.length_keys, same.length_eq, Listing.length_keys]
    exact lists.bounded

/-- An entry that is placed anew keeps its slot and its key. -/
theorem keys_placeCell_without (lists : cache.Lists listing) (member : (slot, entry) ∈ listing)
    {renewed : Entry κ ν policy.Metadata} (same : renewed.key = entry.key) :
    (Listing.keys (policy.placeCell (slot, renewed) (listing.without slot))).Perm
      listing.keys := by
  have placed : (Listing.keys (policy.placeCell (slot, renewed) (listing.without slot))).Perm
      ((slot, renewed.key) :: Listing.keys (listing.without slot)) :=
    (Policy.placeCell_perm _ _).map _
  have split := (lists.store.covers.perm_cons_without member).map fun cell => (cell.1, cell.2.key)
  rw [same] at placed
  exact placed.trans split.symm

/-- An access places an entry anew. -/
theorem touch (lists : cache.Lists listing) (member : (slot, entry) ∈ listing) :
    (cache.touch slot).Lists (policy.placeCell
      (slot, entry.withMetadata (policy.accessed entry.metadata)) (listing.without slot)) :=
  (lists.replaceStore (lists.store.touch member)
    (lists.keys_placeCell_without member rfl)).withMetrics _

/-- An access that leaves a value places the entry anew with that value. -/
theorem renew (lists : cache.Lists listing) (member : (slot, entry) ∈ listing) (value : ν) :
    ((cache.touch slot).setValue slot value).Lists (policy.placeCell
      (slot, ⟨entry.key, value, policy.accessed entry.metadata⟩) (listing.without slot)) := by
  have stored := (lists.touch member).store.setValue slot value
  rw [Policy.mapAt_placeCell_without] at stored
  have keys : (Listing.keys (policy.placeCell
      (slot, ⟨entry.key, value, policy.accessed entry.metadata⟩) (listing.without slot))).Perm
      listing.keys := lists.keys_placeCell_without member rfl
  exact (lists.replaceStore stored keys).withMetrics _

/-- A new entry is placed in a slot of its own. -/
theorem addEntry [EquivBEq κ] [LawfulHashable κ] (lists : cache.Lists listing) {key : κ}
    (absent : cache.index[key]? = none) (room : listing.length < cache.capacity) (value : ν) :
    ∃ slot, (cache.addEntry key value).Lists
      (policy.placeCell (slot, ⟨key, value, policy.fresh cache.store⟩) listing) := by
  obtain ⟨stored, _⟩ := lists.store.add key value
  have placed := Policy.placeCell_perm
    ((policy.add cache.store key value).1, ⟨key, value, policy.fresh cache.store⟩) listing
  refine ⟨(policy.add cache.store key value).1, stored, ?_, ?_⟩
  · exact (lists.index.insert absent _).perm (placed.map _)
  · rw [placed.length_eq]
    exact room

/-- Erasing the key of an entry and removing the entry from its slot takes it out. -/
theorem erase [EquivBEq κ] [LawfulHashable κ] (lists : cache.Lists listing)
    (member : (slot, entry) ∈ listing) {key : κ} (same : (entry.key == key) = true) :
    Lists { cache with
      index := cache.index.erase key
      store := (policy.remove cache.store slot).2 } (listing.without slot) := by
  have split := lists.store.covers.perm_cons_without member
  have absent : slot ∉ (Listing.keys (listing.without slot)).map Prod.fst := by
    rw [Listing.map_fst_keys]
    intro listed
    obtain ⟨cell, kept, here⟩ := List.mem_map.mp listed
    exact (Listing.mem_without.mp kept).2 here
  refine ⟨(lists.store.remove member).2, ?_, ?_⟩
  · exact (lists.index.perm (split.symm.map _)).erase absent same
  · exact (listing.without_sublist slot).length_le.trans lists.bounded

end Lists

end Cache

end EvictionCache
