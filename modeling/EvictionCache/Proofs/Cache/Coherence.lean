import EvictionCache.Proofs.Cache.Agreement
import EvictionCache.Proofs.Cache.Change
import EvictionCache.Proofs.Recency.Links
import EvictionCache.Workload.Key
import Mathlib

/-!
# Coherence after every run

The parts of a cache repeat one another. The index repeats under which keys the occupied slots
were filled (`Cache.Indexed`), and the chain, the ranking or the buckets of the policy repeat
which slots are occupied and what their entries carry. After every run all parts agree, and
there are never more entries than fit. For a ranking that includes that no rank was ever taken
from an entry, since ranks and the entries that carry them change one after the other.
-/
namespace EvictionCache

open Relation (ReflTransGen)

namespace Policy

/-- Under a policy that counts accesses at least one has been counted. -/
def Counts (policy : Policy) (metadata : policy.Metadata) : Prop :=
  ∀ count, policy.frequency? metadata = some count → 1 ≤ count

/-- Storing an entry is its first access. -/
theorem counts_fresh {κ ν : Type} (policy : Policy) (store : policy.Store κ ν) :
    policy.Counts (policy.fresh store) := by
  intro count known
  cases policy with
  | lru => cases known
  | lfu | lfru => exact Nat.le_of_eq (Option.some.inj known)

/-- Counting one more access leaves no count at zero. -/
theorem Counts.accessed {policy : Policy} {metadata : policy.Metadata}
    (counts : policy.Counts metadata) : policy.Counts (policy.accessed metadata) := by
  intro count known
  rw [policy.frequency?_accessed, Option.map_eq_some_iff] at known
  obtain ⟨before, known, rfl⟩ := known
  have positive := counts before known
  have room : 1 ≤ maxAccessCount := by decide
  rw [nextCount]
  omega

end Policy

namespace Cache

variable {policy : Policy} {κ ν ε ρ : Type} [BEq κ] [Hashable κ]

/-- The keys of the index and the occupied slots belong together one to one. -/
structure Indexed (cache : Cache policy κ ν) : Prop where
  /-- A key leads to a slot exactly when the slot holds an entry under an equal key. -/
  find_iff : ∀ key slot, cache.index[key]? = some slot ↔
    ∃ entry, cache.entryAt? slot = some entry ∧ (entry.key == key) = true
  /-- Keys that lead to one slot are equal. -/
  key_inj : ∀ (one other : κ) slot,
    cache.index[one]? = some slot → cache.index[other]? = some slot →
      (one == other) = true
  /-- Exactly the occupied slots are led to. -/
  exists_key_iff : ∀ slot,
    (∃ key : κ, cache.index[key]? = some slot) ↔ (cache.entryAt? slot).isSome

/-- A cache that evicts by recency, with all its parts in agreement. -/
structure RecencyCoherent (cache : Cache .lru κ ν) : Prop where
  /-- The index leads to the occupied slots. -/
  indexed : cache.Indexed
  /-- The links of the chain lead from end to end and back. -/
  wellLinked : cache.store.chain.WellLinked cache.store.nodes
  /-- They lead over the occupied slots and no others. -/
  visits_iff : ∀ slot,
    cache.store.chain.Visits cache.store.nodes slot ↔ (cache.entryAt? slot).isSome
  /-- The chain counts as many nodes as there are keys. -/
  chain_length : cache.store.chain.length = cache.size
  /-- The arena counts as many nodes as there are keys. -/
  nodes_size : cache.store.nodes.size = cache.size
  /-- The entries fit. -/
  size_le : cache.size ≤ cache.capacity

/-- A cache that evicts by count and insertion, with all its parts in agreement. -/
structure RankingCoherent (cache : Cache .lfu κ ν) : Prop where
  /-- The index leads to the occupied slots. -/
  indexed : cache.Indexed
  /-- A slot is ranked exactly as its entry says. -/
  rank_iff : ∀ (rank : Rank) (slot : SlotId), cache.store.ranking.ranks[rank]? = some slot ↔
    ∃ entry, cache.entryAt? slot = some entry ∧ entry.metadata = rank
  /-- No two entries have one sequence number. -/
  sequence_inj : ∀ slot other entry held, cache.entryAt? slot = some entry →
    cache.entryAt? other = some held → entry.metadata.sequence = held.metadata.sequence →
    slot = other
  /-- The sequence numbers of all entries have been given. -/
  sequence_lt : ∀ slot entry, cache.entryAt? slot = some entry →
    entry.metadata.sequence < cache.store.nextSequence
  /-- A sequence number was given for each entry ever stored. -/
  nextSequence_eq : cache.store.nextSequence = cache.metrics.core.insertions
  /-- Every entry was accessed. -/
  frequency_pos : ∀ slot entry, cache.entryAt? slot = some entry → 1 ≤ entry.metadata.frequency
  /-- The ranking counts as many slots as there are keys. -/
  ranking_size : cache.store.ranking.size = cache.size
  /-- The arena counts as many entries as there are keys. -/
  slots_size : cache.store.slots.size = cache.size
  /-- The entries fit. -/
  size_le : cache.size ≤ cache.capacity

/-- A cache that evicts by count and recency, with all its parts in agreement. -/
structure BucketsCoherent (cache : Cache .lfru κ ν) : Prop where
  /-- The index leads to the occupied slots. -/
  indexed : cache.Indexed
  /-- No bucket is empty. -/
  length_pos : ∀ (count : Nat) chain, cache.store.buckets.chains[count]? = some chain →
    0 < chain.length
  /-- The links of each bucket lead from end to end and back. -/
  wellLinked : ∀ (count : Nat) chain, cache.store.buckets.chains[count]? = some chain →
    chain.WellLinked cache.store.nodes
  /-- No slot is in two buckets. -/
  count_eq : ∀ (one other : Nat) first second slot,
    cache.store.buckets.chains[one]? = some first →
    cache.store.buckets.chains[other]? = some second →
    first.Visits cache.store.nodes slot → second.Visits cache.store.nodes slot → one = other
  /-- Exactly the occupied slots are in buckets, each in that of the count of its entry. -/
  visits_iff : ∀ (count : Nat) slot,
    (∃ chain, cache.store.buckets.chains[count]? = some chain ∧
      chain.Visits cache.store.nodes slot) ↔
    ∃ entry, cache.entryAt? slot = some entry ∧ entry.metadata.frequency = count
  /-- Every entry was accessed. -/
  frequency_pos : ∀ slot entry, cache.entryAt? slot = some entry → 1 ≤ entry.metadata.frequency
  /-- The buckets together count as many nodes as there are keys. -/
  buckets_length : cache.store.buckets.length = cache.size
  /-- The arena counts as many nodes as there are keys. -/
  nodes_size : cache.store.nodes.size = cache.size
  /-- The entries fit. -/
  size_le : cache.size ≤ cache.capacity

section Parts

variable {cache : Cache policy κ ν} {listing : Listing (Entry κ ν policy.Metadata)}

/-- A cache in order finds the slots by their keys. -/
theorem Lists.find_iff (lists : cache.Lists listing) (key : κ) (slot : SlotId) :
    cache.index[key]? = some slot ↔
      ∃ entry, cache.entryAt? slot = some entry ∧ (entry.key == key) = true := by
  rw [lists.index.find_iff]
  simp only [Listing.mem_keys, lists.mem_iff]
  constructor
  · rintro ⟨_, ⟨entry, held, rfl⟩, same⟩
    exact ⟨entry, held, same⟩
  · rintro ⟨entry, held, same⟩
    exact ⟨_, ⟨entry, held, rfl⟩, same⟩

variable [EquivBEq κ]

/-- In a cache in order keys and occupied slots belong together one to one. -/
theorem Lists.indexed (lists : cache.Lists listing) : cache.Indexed where
  find_iff := lists.find_iff
  key_inj one other slot first second := by
    obtain ⟨entry, held, same⟩ := (lists.find_iff one slot).mp first
    obtain ⟨again, found, alike⟩ := (lists.find_iff other slot).mp second
    obtain rfl : entry = again := Option.some.inj (held.symm.trans found)
    exact PartialEquivBEq.trans (BEq.symm same) alike
  exists_key_iff slot := by
    rw [Option.isSome_iff_exists]
    constructor
    · rintro ⟨key, found⟩
      obtain ⟨entry, held, _⟩ := (lists.find_iff key slot).mp found
      exact ⟨entry, held⟩
    · rintro ⟨entry, held⟩
      exact ⟨entry.key, (lists.find_iff entry.key slot).mpr ⟨entry, held, BEq.rfl⟩⟩

/-- A store that evicts by recency agrees with its index in every cache in order. -/
theorem Lists.recencyCoherent {cache : Cache .lru κ ν} {listing : Listing (Entry κ ν Unit)}
    (lists : cache.Lists listing) : cache.RecencyCoherent := by
  have stored : RecencyStore.Lists cache.store listing := lists.store
  exact {
    indexed := lists.indexed
    wellLinked := stored.spells.wellLinked
    visits_iff := fun slot => by
      rw [stored.spells.visits_iff, List.mem_reverse]
      exact stored.covers.isSome_iff.symm
    chain_length := by rw [stored.spells.length_eq, lists.size_eq]; simp
    nodes_size := by
      rw [lists.size_eq]
      exact stored.covers.size_eq stored.wellFormed fun slot => Option.isSome_map
    size_le := lists.size_le }

/-- A store that evicts by count and recency agrees with its index in every cache in order. -/
theorem Lists.bucketsCoherent {cache : Cache .lfru κ ν}
    {listing : Listing (Entry κ ν AccessCount)} (lists : cache.Lists listing)
    (accessed : ∀ cell ∈ listing, 1 ≤ cell.2.metadata.frequency) : cache.BucketsCoherent := by
  have stored : BucketedStore.Lists cache.store listing := lists.store
  exact {
    indexed := lists.indexed
    length_pos := fun count chain => stored.spells.length_pos
    wellLinked := fun count chain found => (stored.spells.spells_of_getElem? found).wellLinked
    count_eq := fun one other first second slot => stored.spells.count_eq_of_visits
    visits_iff := fun count slot => by
      rw [stored.spells.exists_visits_iff, BucketedStore.mem_slotsOf]
      simp only [lists.mem_iff]
    frequency_pos := fun slot entry held => accessed (slot, entry) (lists.mem_iff.mpr held)
    buckets_length := by rw [stored.length_eq, lists.size_eq]
    nodes_size := by
      rw [lists.size_eq]
      exact stored.covers.size_eq stored.wellFormed fun slot => Option.isSome_map
    size_le := lists.size_le }

/-- A store that evicts by count and insertion agrees with its index in every cache in order. -/
theorem Lists.rankingCoherent {cache : Cache .lfu κ ν} {listing : Listing (Entry κ ν Rank)}
    (lists : cache.Lists listing) (accessed : ∀ cell ∈ listing, 1 ≤ cell.2.metadata.frequency)
    (counted : cache.store.nextSequence = cache.metrics.core.insertions) :
    cache.RankingCoherent := by
  have stored : RankedStore.Lists cache.store listing := lists.store
  exact {
    indexed := lists.indexed
    rank_iff := fun rank slot => by
      rw [stored.ranked rank slot]
      simp only [lists.mem_iff]
    sequence_inj := fun slot other entry held here there same =>
      congrArg Prod.fst (stored.slot_eq (lists.mem_iff.mpr here) (lists.mem_iff.mpr there) same)
    sequence_lt := fun slot entry held => stored.next (slot, entry) (lists.mem_iff.mpr held)
    nextSequence_eq := counted
    frequency_pos := fun slot entry held => accessed (slot, entry) (lists.mem_iff.mpr held)
    ranking_size := by
      rw [Ranking.size, ← Std.TreeMap.length_toList, stored.toList_eq, lists.size_eq,
        List.length_map]
    slots_size := by
      rw [lists.size_eq]
      exact stored.covers.size_eq stored.wellFormed fun slot => rfl
    size_le := lists.size_le }

end Parts

section Run

/-- The sequence number of the next entry is the number of entries stored so far, before and
after every elementary change. -/
theorem Change.nextSequence_eq {cache changed : Cache .lfu κ ν} (change : cache.Change changed)
    (counted : cache.store.nextSequence = cache.metrics.core.insertions) :
    changed.store.nextSequence = changed.metrics.core.insertions := by
  cases change with
  | miss => exact counted
  | hit _ => exact (RankedStore.nextSequence_touch cache.store _).trans counted
  | update _ => exact (RankedStore.nextSequence_touch cache.store _).trans counted
  | write => exact counted
  | store _ _ _ => exact congrArg (· + 1) counted
  | evict _ _ _ => exact (RankedStore.nextSequence_remove cache.store _).trans counted
  | remove _ _ => exact (RankedStore.nextSequence_remove cache.store _).trans counted
  | clear => exact counted

/-- The sequence number of the next entry goes on being the number of entries stored. -/
theorem nextSequence_of_changes {cache changed : Cache .lfu κ ν}
    (changes : ReflTransGen Change cache changed)
    (counted : cache.store.nextSequence = cache.metrics.core.insertions) :
    changed.store.nextSequence = changed.metrics.core.insertions := by
  induction changes with
  | refl => exact counted
  | tail _ change ih => exact change.nextSequence_eq ih

/-- What elementary changes make of a new cache is in order, and its entries count at least the
access that stored them. -/
theorem exists_lists_of_changes_ofConfig [EquivBEq κ] [LawfulHashable κ] {config : CacheConfig}
    {cache : Cache policy κ ν} (changes : ReflTransGen Change (ofConfig config) cache) :
    ∃ listing, cache.Lists listing ∧ ∀ cell ∈ listing, policy.Counts cell.2.metadata := by
  have uncounted : ∀ cell ∈ ([] : Listing (Entry κ ν policy.Metadata)),
      policy.Counts cell.2.metadata := fun cell here => nomatch here
  exact exists_lists_of_changes changes (lists_ofConfig config) policy.Counts uncounted
    policy.counts_fresh fun _ => Policy.Counts.accessed

/-- After every run a cache is in order, and its entries count at least the access that stored
them. -/
theorem exists_lists_run [EquivBEq κ] [LawfulHashable κ] [BEq ν] (config : CacheConfig)
    (calls : List (Call κ ν ε ρ)) :
    ∃ listing, ((ofConfig config : Cache policy κ ν).run calls).state.Lists listing ∧
      ∀ cell ∈ listing, policy.Counts cell.2.metadata :=
  exists_lists_of_changes_ofConfig (changes_ofConfig config calls)

end Run

end Cache

section Runs

variable {κ ν ε ρ : Type} [BEq κ] [Hashable κ] [EquivBEq κ] [LawfulHashable κ] [BEq ν]

/-- After every run of a cache that evicts by recency its parts agree, and no more entries are
in it than fitted at the start. -/
theorem run_lru_coherent (config : CacheConfig) (calls : List (Call κ ν ε ρ)) :
    let state := ((Cache.ofConfig config : Cache .lru κ ν).run calls).state
    state.RecencyCoherent ∧ state.capacity = config.capacity.entries := by
  intro state
  obtain ⟨listing, lists, _⟩ : ∃ listing, state.Lists listing ∧ _ :=
    Cache.exists_lists_run config calls
  exact ⟨lists.recencyCoherent, Cache.capacity_run _ calls⟩

/-- With room for two entries, the one read under another spelling stays. -/
theorem run_lru_coherent_spellings :
    let state := ((Cache.ofConfig ⟨⟨2, by decide⟩, 16, .threeQuarters⟩ :
      Cache .lru FoldedKey Nat).run
      ([.put ⟨.text "a"⟩ 1, .put ⟨.text "b"⟩ 2, .get ⟨.text "A"⟩, .push ⟨.text "c"⟩ 3] :
        List (Call FoldedKey Nat Unit Unit))).state
    state.RecencyCoherent ∧ state.capacity = 2 ∧
      state.entries.map Entry.pair = [(⟨.text "a"⟩, 1), (⟨.text "c"⟩, 3)] :=
  ⟨(run_lru_coherent _ _).1, (run_lru_coherent _ _).2,
    (congrArg (List.map _) ((Cache.represents_ofConfig _).run _).state.entries_eq).trans (by cbv)⟩

/-- After every run of a cache that evicts by count and recency its parts agree, and no more
entries are in it than fitted at the start. -/
theorem run_lfru_coherent (config : CacheConfig) (calls : List (Call κ ν ε ρ)) :
    let state := ((Cache.ofConfig config : Cache .lfru κ ν).run calls).state
    state.BucketsCoherent ∧ state.capacity = config.capacity.entries := by
  intro state
  obtain ⟨listing, lists, counts⟩ : ∃ listing, state.Lists listing ∧ _ :=
    Cache.exists_lists_run config calls
  have accessed : ∀ cell ∈ listing, 1 ≤ cell.2.metadata.frequency :=
    fun cell here => counts cell here _ rfl
  exact ⟨lists.bucketsCoherent accessed, Cache.capacity_run _ calls⟩

/-- With room for two entries, the one read under another spelling is in a bucket of its own. -/
theorem run_lfru_coherent_spellings :
    let state := ((Cache.ofConfig ⟨⟨2, by decide⟩, 16, .threeQuarters⟩ :
      Cache .lfru FoldedKey Nat).run
      ([.put ⟨.text "a"⟩ 1, .put ⟨.text "b"⟩ 2, .get ⟨.text "A"⟩, .push ⟨.text "c"⟩ 3] :
        List (Call FoldedKey Nat Unit Unit))).state
    state.BucketsCoherent ∧ state.capacity = 2 ∧
      state.entries.map (fun entry => (entry.pair, entry.metadata)) =
        [((⟨.text "c"⟩, 3), ⟨1⟩), ((⟨.text "a"⟩, 1), ⟨2⟩)] :=
  ⟨(run_lfru_coherent _ _).1, (run_lfru_coherent _ _).2,
    (congrArg (List.map _) ((Cache.represents_ofConfig _).run _).state.entries_eq).trans (by cbv)⟩

/-- After every run of a cache that evicts by count and insertion its parts agree, and no more
entries are in it than fitted at the start. Whatever is accessed or stored next, no entry loses
its rank by it. -/
theorem run_lfu_coherent (config : CacheConfig) (calls : List (Call κ ν ε ρ)) :
    let state := ((Cache.ofConfig config : Cache .lfu κ ν).run calls).state
    let roomy := state.makeRoom.state
    state.RankingCoherent ∧ state.capacity = config.capacity.entries ∧
      (∀ slot entry, state.entryAt? slot = some entry →
        state.store.ranking.Relists (state.touch slot).store.ranking slot
          entry.metadata.increment) ∧
      ∀ key value, ∃ slot, (∀ rank : Rank, roomy.store.ranking.ranks[rank]? ≠ some slot) ∧
        roomy.store.ranking.Relists (roomy.addEntry key value).store.ranking slot
          (.initial roomy.store.nextSequence) := by
  intro state roomy
  obtain ⟨listing, lists, counts⟩ : ∃ listing, state.Lists listing ∧ _ :=
    Cache.exists_lists_run config calls
  have counted : state.store.nextSequence = state.metrics.core.insertions :=
    Cache.nextSequence_of_changes (Cache.changes_ofConfig config calls) rfl
  obtain ⟨others, inOrder⟩ := (lists.represents rfl).makeRoom.state.listed
  have stored : RankedStore.Lists state.store listing := lists.store
  have room : RankedStore.Lists roomy.store others := inOrder.store
  have accessed : ∀ cell ∈ listing, 1 ≤ cell.2.metadata.frequency :=
    fun cell here => counts cell here _ rfl
  refine ⟨lists.rankingCoherent accessed counted, Cache.capacity_run _ calls, ?_, ?_⟩
  · intro slot entry held
    exact stored.relists_touch (lists.mem_iff.mpr held)
  · intro key value
    have vacant := (room.add key value).2
    exact ⟨_, room.ranks_ne_of_vacant vacant, room.relists_add key value⟩

/-- With room for two entries, sequence numbers go on after the cache was cleared, and the entry
stored last takes the rank after that of the entry that stays. -/
theorem run_lfu_coherent_cleared :
    let state := ((Cache.ofConfig ⟨⟨2, by decide⟩, 16, .threeQuarters⟩ :
      Cache .lfu FoldedKey Nat).run
      ([.put ⟨.text "a"⟩ 1, .get ⟨.text "A"⟩, .clear, .put ⟨.text "b"⟩ 2, .put ⟨.text "c"⟩ 3,
        .put ⟨.text "d"⟩ 4] : List (Call FoldedKey Nat Unit Unit))).state
    state.RankingCoherent ∧ state.capacity = 2 ∧
      state.entries.map (fun entry => (entry.pair, entry.metadata)) =
        [((⟨.text "c"⟩, 3), ⟨1, 2⟩), ((⟨.text "d"⟩, 4), ⟨1, 3⟩)] :=
  ⟨(run_lfu_coherent _ _).1, (run_lfu_coherent _ _).2.1,
    (congrArg (List.map _) ((Cache.represents_ofConfig _).run _).state.entries_eq).trans (by cbv)⟩

end Runs

end EvictionCache
