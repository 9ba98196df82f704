import EvictionCache.Proofs.Cache.Lists
import EvictionCache.Proofs.Outcome
import EvictionCache.Proofs.Queue.Basic

/-!
# Caches do what their queues do

The queue of a cache holds its entries in the order of eviction. Every operation on a cache in
order gives the answer, causes the events and leaves the queue that the same operation on its
queue does, and so does every run.
-/
namespace EvictionCache.Cache

variable {policy : Policy} {κ ν ε ρ : Type} [BEq κ] [Hashable κ]

/-- The entries of a cache in the order of eviction. -/
def queue (cache : Cache policy κ ν) : Queue policy κ ν :=
  ⟨cache.capacity, cache.entries, policy.fresh cache.store⟩

/-- A cache in order and its queue. -/
structure Represents (cache : Cache policy κ ν) (queue : Queue policy κ ν) : Prop where
  /-- Store and index list the same entries. -/
  listed : ∃ listing, cache.Lists listing
  /-- The queue holds them in the order of eviction. -/
  queue_eq : cache.queue = queue

namespace Lists

variable {cache : Cache policy κ ν} {listing : Listing (Entry κ ν policy.Metadata)}
  {slot : SlotId} {entry : Entry κ ν policy.Metadata} {key : κ}

/-- The entries are those of the listing. -/
theorem entries_eq (lists : cache.Lists listing) : cache.entries = listing.map Prod.snd :=
  lists.store.entries_eq

/-- Some queue holds the entries. -/
theorem represents (lists : cache.Lists listing) {queue : Queue policy κ ν}
    (same : cache.queue = queue) : cache.Represents queue := ⟨⟨listing, lists⟩, same⟩

/-- A new entry joins the queue. -/
theorem queue_addEntry (lists : cache.Lists listing) (value : ν) :
    (cache.addEntry key value).queue = cache.queue.join key value := by
  have entries := (lists.store.add key value).1.entries_eq
  rw [Policy.map_snd_placeCell, ← lists.store.entries_eq] at entries
  have fresh := policy.fresh_add cache.store key value
  unfold queue Cache.entries Queue.join
  rw [show (cache.addEntry key value).store = (policy.add cache.store key value).2 from rfl,
    entries, fresh]
  rfl

/-- A key that the index does not find is nowhere in the queue. -/
theorem find?_eq_none (lists : cache.Lists listing) (absent : cache.index[key]? = none) :
    cache.queue.find? key = none := by
  apply List.find?_eq_none.mpr
  intro entry member
  rw [show cache.queue.entries = listing.map Prod.snd from lists.entries_eq] at member
  obtain ⟨cell, listed, rfl⟩ := List.mem_map.mp member
  have keyed : (cell.1, cell.2.key) ∈ listing.keys := Listing.mem_keys.mpr ⟨cell.2, listed, rfl⟩
  simp [lists.index.ne_of_find_eq_none absent keyed]

variable [EquivBEq κ]

/-- Entries with equal keys are in the same slot. -/
theorem slot_eq (lists : cache.Lists listing) {other : SlotId}
    {another : Entry κ ν policy.Metadata} (member : (slot, entry) ∈ listing)
    (listed : (other, another) ∈ listing) (same : (entry.key == another.key) = true) :
    slot = other :=
  lists.index.slot_eq (Listing.mem_keys.mpr ⟨entry, member, rfl⟩)
    (Listing.mem_keys.mpr ⟨another, listed, rfl⟩) same

/-- The queue finds an entry under every spelling of its key. -/
theorem find?_eq_some (lists : cache.Lists listing) (member : (slot, entry) ∈ listing)
    (same : (entry.key == key) = true) : cache.queue.find? key = some entry := by
  have entries : cache.queue.entries = listing.map Prod.snd := lists.entries_eq
  rw [Queue.find?, entries]
  apply find?_eq_some_of_unique (List.mem_map.mpr ⟨_, member, rfl⟩) same
  intro other present spelt
  obtain ⟨⟨place, other⟩, listed, rfl⟩ := List.mem_map.mp present
  obtain rfl := lists.slot_eq member listed (PartialEquivBEq.trans same (BEq.symm spelt))
  exact lists.store.covers.value_eq listed member

/-- What the index finds is what the queue finds. -/
theorem exists_entry (lists : cache.Lists listing) (found : cache.index[key]? = some slot) :
    ∃ entry, (slot, entry) ∈ listing ∧ (entry.key == key) = true ∧
      cache.queue.find? key = some entry := by
  obtain ⟨stored, keyed, same⟩ := (lists.index.find_iff key slot).mp found
  obtain ⟨entry, member, rfl⟩ := Listing.mem_keys.mp keyed
  exact ⟨entry, member, same, lists.find?_eq_some member same⟩

/-- Leaving a slot out of the listing is leaving its key out of the queue. -/
theorem map_snd_without (lists : cache.Lists listing) (member : (slot, entry) ∈ listing)
    (same : (entry.key == key) = true) :
    (listing.without slot).map Prod.snd = (cache.queue.discard key).entries := by
  have entries : cache.queue.entries = listing.map Prod.snd := lists.entries_eq
  rw [Queue.discard, entries, List.filter_map, Listing.without]
  apply congrArg
  apply List.filter_congr
  rintro ⟨other, another⟩ listed
  by_cases here : other = slot
  · subst here
    rw [lists.store.covers.value_eq listed member]
    simp [same]
  · have apart : ¬ (another.key == key) = true := fun spelt =>
      here (lists.slot_eq member listed (PartialEquivBEq.trans same (BEq.symm spelt))).symm
    simp [here, apart]

/-- An access that leaves a value renews the entry in the queue. -/
theorem queue_renew (lists : cache.Lists listing) (member : (slot, entry) ∈ listing)
    (value : ν) :
    ((cache.touch slot).setValue slot value).queue = cache.queue.renew entry value := by
  have entries := (lists.renew member value).entries_eq
  rw [Policy.map_snd_placeCell, lists.map_snd_without member BEq.rfl] at entries
  have fresh : policy.fresh ((cache.touch slot).setValue slot value).store =
      policy.fresh cache.store :=
    (policy.fresh_setValue _ slot value).trans (policy.fresh_touch _ slot)
  rw [queue, entries, fresh]
  rfl

/-- An access that leaves the value alone renews the entry with it. -/
theorem queue_touch (lists : cache.Lists listing) (member : (slot, entry) ∈ listing) :
    (cache.touch slot).queue = cache.queue.renew entry entry.value := by
  have entries := (lists.touch member).entries_eq
  rw [Policy.map_snd_placeCell, lists.map_snd_without member BEq.rfl] at entries
  rw [queue, entries, show policy.fresh (cache.touch slot).store = policy.fresh cache.store from
    policy.fresh_touch _ slot]
  rfl

/-- Erasing the key of an entry and removing the entry from its slot discards the key. -/
theorem queue_erase (lists : cache.Lists listing) (member : (slot, entry) ∈ listing)
    (same : (entry.key == key) = true) :
    queue { cache with
      index := cache.index.erase key
      store := (policy.remove cache.store slot).2 } = cache.queue.discard key := by
  have entries := (lists.store.remove member).2.entries_eq
  rw [lists.map_snd_without member same] at entries
  unfold queue Cache.entries
  rw [entries, policy.fresh_remove]
  rfl

end Lists

end EvictionCache.Cache
