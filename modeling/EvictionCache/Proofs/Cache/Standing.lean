import EvictionCache.Proofs.Cache.Inclusion

/-!
# How the entries of a cache stand

The queue of a cache in order stands in the order of eviction, and no two of its entries have
equal keys, whatever their spellings.
-/
namespace EvictionCache.Cache.Represents

variable {policy : Policy} {κ ν : Type} [BEq κ] [Hashable κ] {cache : Cache policy κ ν}
  {queue : Queue policy κ ν}

/-- The entries stand in the order of eviction. -/
theorem ordered (represents : cache.Represents queue) : policy.Ordered queue.entries := by
  obtain ⟨⟨listing, lists⟩, rfl⟩ := represents
  rw [show cache.queue.entries = listing.map Prod.snd from lists.entries_eq]
  exact lists.store.ordered

/-- No two entries have equal keys. -/
theorem apart [EquivBEq κ] (represents : cache.Represents queue) :
    queue.entries.Pairwise fun one other => (one.key == other.key) = false := by
  obtain ⟨⟨listing, lists⟩, rfl⟩ := represents
  rw [show cache.queue.entries = listing.map Prod.snd from lists.entries_eq, List.pairwise_map]
  have slots : listing.Pairwise fun one other => one.1 ≠ other.1 :=
    List.pairwise_map.mp lists.store.covers.nodup
  refine slots.imp_of_mem fun {one other} member also apart => ?_
  exact Bool.eq_false_iff.mpr fun same => apart (lists.slot_eq member also same)

/-- No entry is there twice. -/
theorem nodup [EquivBEq κ] (represents : cache.Represents queue) : queue.entries.Nodup := by
  refine represents.apart.imp fun {one other} apart same => ?_
  rw [same, BEq.rfl] at apart
  cases apart

/-- The pairs of a cache are those of its queue. -/
theorem toList_eq (represents : cache.Represents queue) :
    cache.toList = queue.entries.map Entry.pair := by
  rw [toList, represents.entries_eq]

/-- A key that is absent from a cache is nowhere in its queue. -/
theorem find?_eq_none [EquivBEq κ] [LawfulHashable κ] (represents : cache.Represents queue)
    {key : κ} (absent : cache.containsKey key = false) : queue.find? key = none := by
  rw [represents.containsKey_eq] at absent
  exact Option.isNone_iff_eq_none.mp (Option.isSome_eq_false_iff.mp absent)

end EvictionCache.Cache.Represents
