import EvictionCache.Proofs.Cache.Observation
import EvictionCache.Proofs.Cache.Standing
import EvictionCache.Proofs.Recency.Walks
import EvictionCache.Workload.Key
import Mathlib

/-!
# One order of eviction

Iterating over a cache, asking for its candidate, popping and evicting go by different ways: over
the links of a chain from one end to the other, to the first place of a ranking or of the lowest
bucket, and out of the store. In every state that a cache can reach they agree on one order
(`Cache.OneOrder`). Popping in that order leaves a cache that is as good as new.
-/
namespace EvictionCache

variable {policy : Policy} {κ ν ε ρ : Type}

namespace Policy

/-- Iterating over a store comes to an end after these entries: it follows the links of one
chain, or reads a ranking off from its first place to its last, or follows the links of one
bucket after another. -/
def Yields : (policy : Policy) → policy.Store κ ν → List (Entry κ ν policy.Metadata) → Prop
  | lru, store, entries =>
    (RecencyStore.chain store).walk.Yields (RecencyStore.nodes store) entries
  | lfu, store, entries => entries.map some =
    (RankedStore.ranking store).slots.map (RankedStore.slots store).get?
  | lfru, store, entries => ∃ parts, entries = parts.flatten ∧
    List.Forall₂ (fun bucket part => bucket.2.walk.Yields (BucketedStore.nodes store) part)
      (BucketedStore.buckets store).chains.toList parts

/-- Iterating over a store in order comes to an end after its entries. -/
theorem Lists.yields {store : policy.Store κ ν} {listing : Listing (Entry κ ν policy.Metadata)}
    (lists : policy.Lists store listing) : policy.Yields store (policy.entries store) := by
  cases policy with
  | lru => exact (RecencyStore.Lists.spells lists).yields
  | lfu =>
    have slots : (RankedStore.ranking store).slots = listing.map Prod.fst := by
      rw [Ranking.slots, RankedStore.Lists.toList_eq lists, List.map_map]
      rfl
    have entries : Policy.entries .lfu store = listing.map Prod.snd :=
      RankedStore.Lists.entries_eq lists
    rw [Yields, entries, slots, List.map_map, List.map_map]
    apply List.map_congr_left
    intro cell member
    exact ((RankedStore.Lists.covers lists).mem_iff cell.1 cell.2).mp member |>.symm
  | lfru =>
    refine ⟨_, (List.flatMap_def ..), List.forall₂_map_right_iff.mpr (List.forall₂_same.mpr ?_)⟩
    rintro ⟨count, chain⟩ member
    have found := Std.TreeMap.mem_toList_iff_getElem?_eq_some.mp member
    exact ((BucketedStore.Lists.spells lists).spells_of_getElem? found).yields

/-- An entry that takes its place comes between some of the others and the rest. -/
theorem exists_place_eq (policy : Policy) (entry : Entry κ ν policy.Metadata)
    (entries : List (Entry κ ν policy.Metadata)) :
    ∃ before after, entries = before ++ after ∧
      policy.place entry entries = before ++ entry :: after :=
  ⟨_, _, List.takeWhile_append_dropWhile.symm, List.orderedInsert_eq_take_drop _ _ _⟩

end Policy

namespace Queue

/-- Popping as often as there are entries hands them out one after another; what follows finds
none. -/
theorem run_pops [BEq κ] [BEq ν] (queue : Queue policy κ ν) (later : List (Call κ ν ε ρ)) :
    queue.run (List.replicate queue.entries.length .pop ++ later) =
      (run { queue with entries := [] } later).map fun replies =>
        (queue.entries.map fun entry => .pair (some entry.pair)) ++ replies := by
  obtain ⟨capacity, entries, fresh⟩ := queue
  induction entries with
  | nil => rfl
  | cons first rest ih =>
    exact congrArg (Outcome.map fun replies => Reply.pair (some first.pair) :: replies) ih

/-- An absent key that is stored in a full queue takes its place among all entries but the
first. -/
theorem insert_of_full [BEq κ] {queue : Queue policy κ ν} {key : κ}
    (absent : queue.find? key = none) (full : queue.capacity ≤ queue.entries.length) (value : ν) :
    (queue.insert key value).answer =
        queue.entries.head?.map (fun entry => .evicted entry.key entry.value) ∧
      (queue.insert key value).state.entries =
        policy.place ⟨key, value, queue.fresh⟩ queue.entries.tail := by
  rw [insert, absent]
  dsimp only
  rw [makeRoom, if_pos full]
  exact ⟨rfl, rfl⟩

/-- An absent key that is stored in a queue with room displaces nothing. -/
theorem insert_of_room [BEq κ] {queue : Queue policy κ ν} {key : κ}
    (absent : queue.find? key = none) (room : ¬ queue.capacity ≤ queue.entries.length)
    (value : ν) :
    (queue.insert key value).answer = none := by
  rw [insert, absent]
  dsimp only
  rw [makeRoom, if_neg room]
  rfl

end Queue

namespace Cache

variable [BEq κ] [Hashable κ] [BEq ν]

/-- A cache whose entries have one order, in which they are listed, popped and evicted. -/
structure OneOrder (cache : Cache policy κ ν) : Prop where
  /-- Iterating comes to an end after the entries. -/
  yields : policy.Yields cache.store cache.entries
  /-- There are as many pairs as the cache is large. -/
  length : cache.toList.length = cache.size
  /-- No two pairs have equal keys. -/
  apart : cache.toList.Pairwise fun one other => (one.1 == other.1) = false
  /-- The keys of the pairs are those that are present. -/
  containsKey_iff : ∀ key, cache.containsKey key = true ↔
    ∃ pair ∈ cache.toList, (pair.1 == key) = true
  /-- Each key has the value of its pair. -/
  peek_eq : ∀ pair ∈ cache.toList, ∀ key, (pair.1 == key) = true → cache.peek key = some pair.2
  /-- The candidate is the first pair. -/
  candidate?_eq : cache.candidate? = cache.toList.head?
  /-- There is no candidate exactly if the cache is empty. -/
  candidate?_eq_none_iff : cache.candidate? = none ↔ cache.size = 0
  /-- Popping hands out the pairs one after another and then nothing. What is left is empty,
  answers every later run like a new cache, and looks like it afterwards. -/
  pops : ∀ {ε ρ : Type},
    let pops : List (Call κ ν ε ρ) := List.replicate (cache.size + 1) .pop
    let popped := cache.run pops
    popped.answer = (cache.toList.map fun pair => .pair (some pair)) ++ [.pair none] ∧
      popped.state.size = 0 ∧ popped.state.toList = [] ∧
      ∀ later : List (Call κ ν ε ρ),
        let fresh := (ofConfig cache.config : Cache policy κ ν).run later
        (popped.state.run later).answer = fresh.answer ∧
          (popped.state.run later).state.observe = fresh.state.observe
  /-- Storing an absent key in a full cache hands out the first pair. The others stay in their
  order, with the new pair at some place among them. -/
  push_of_full : ∀ key value, cache.containsKey key = false → cache.size = cache.capacity →
    (cache.push key value).answer = cache.toList.head? ∧
      ∃ before after, cache.toList.tail = before ++ after ∧
        (cache.push key value).state.toList = before ++ (key, value) :: after
  /-- Storing an absent key in any other cache hands out nothing. -/
  push_of_room : ∀ key value, cache.containsKey key = false → cache.size ≠ cache.capacity →
    (cache.push key value).answer = none

namespace Represents

variable {cache : Cache policy κ ν} {queue : Queue policy κ ν}

variable [EquivBEq κ] [LawfulHashable κ]

/-- Once all entries were popped a cache looks like a new one for ever. -/
theorem run_popped (represents : cache.Represents queue) :
    let pops : List (Call κ ν ε ρ) := List.replicate (cache.size + 1) .pop
    let popped := cache.run pops
    popped.answer = (cache.toList.map fun pair => .pair (some pair)) ++ [.pair none] ∧
      popped.state.size = 0 ∧ popped.state.toList = [] ∧
      ∀ later : List (Call κ ν ε ρ),
        let fresh := (ofConfig cache.config : Cache policy κ ν).run later
        (popped.state.run later).answer = fresh.answer ∧
          (popped.state.run later).state.observe = fresh.state.observe := by
  intro pops popped
  have drained : Outcome.Matches Represents popped (queue.run pops) := represents.run pops
  have whole : queue.run pops =
      ⟨(queue.entries.map fun entry => .pair (some entry.pair)) ++ [.pair none],
        { queue with entries := [] }, []⟩ := by
    rw [show pops = List.replicate queue.entries.length .pop ++ [.pop] by
      rw [← represents.size_eq, ← List.replicate_succ'], queue.run_pops]
    rfl
  rw [whole] at drained
  have empty : (ofConfig cache.config : Cache policy κ ν).Represents _ :=
    represents_ofConfig cache.config
  refine ⟨drained.answer.trans ?_, drained.state.size_eq, ?_, fun later => ?_⟩
  · rw [represents.toList_eq, List.map_map]
    rfl
  · rw [drained.state.toList_eq]
    rfl
  · have capacity : popped.state.capacity = (ofConfig cache.config : Cache policy κ ν).capacity :=
      cache.capacity_run pops
    have void : (ofConfig cache.config : Cache policy κ ν).size = 0 := empty.size_eq
    have same := drained.state.observe_of_size empty drained.state.size_eq void
    exact drained.state.run_of_alike empty (drained.state.alike empty capacity same) later

omit [BEq ν] in
/-- Storing an absent key in a full cache evicts the first pair. -/
theorem push_of_full (represents : cache.Represents queue) {key : κ} (value : ν)
    (absent : cache.containsKey key = false) (full : cache.size = cache.capacity) :
    (cache.push key value).answer = cache.toList.head? ∧
      ∃ before after, cache.toList.tail = before ++ after ∧
        (cache.push key value).state.toList = before ++ (key, value) :: after := by
  have stored := represents.insert key value
  rw [represents.size_eq, represents.capacity_eq] at full
  obtain ⟨answer, entries⟩ :=
    Queue.insert_of_full (represents.find?_eq_none absent) full.ge value
  obtain ⟨before, after, split, placed⟩ :=
    policy.exists_place_eq ⟨key, value, queue.fresh⟩ queue.entries.tail
  refine ⟨?_, before.map Entry.pair, after.map Entry.pair, ?_, ?_⟩
  · rw [represents.toList_eq, List.head?_map]
    refine (congrArg (Option.map Displaced.pair) (stored.answer.trans answer)).trans ?_
    rw [Option.map_map]
    rfl
  · rw [represents.toList_eq, List.map_tail.symm, split, List.map_append]
  · refine stored.state.toList_eq.trans ?_
    rw [entries, placed, List.map_append]
    rfl

/-- A cache in order has one order of eviction. -/
theorem oneOrder (represents : cache.Represents queue) : cache.OneOrder where
  yields := by
    obtain ⟨listing, lists⟩ := represents.listed
    exact lists.store.yields
  length := by rw [represents.toList_eq, represents.size_eq, List.length_map]
  apart := by
    rw [represents.toList_eq]
    exact List.pairwise_map.mpr represents.apart
  containsKey_iff key := by
    rw [represents.containsKey_eq, represents.toList_eq, Queue.find?, List.find?_isSome]
    simp [Entry.pair]
  peek_eq pair member key same := by
    rw [represents.toList_eq] at member
    obtain ⟨entry, listed, rfl⟩ := List.mem_map.mp member
    rw [peek, represents.entry?_eq, represents.finds entry listed key same]
    rfl
  candidate?_eq := by rw [represents.candidate?_eq, represents.toList_eq, List.head?_map]
  candidate?_eq_none_iff := by
    rw [represents.candidate?_eq, represents.size_eq, Option.map_eq_none_iff,
      List.head?_eq_none_iff, List.length_eq_zero_iff]
  pops := represents.run_popped
  push_of_full key value absent full := represents.push_of_full value absent full
  push_of_room key value absent room := by
    have fits : ¬ queue.capacity ≤ queue.entries.length := by
      rw [← represents.size_eq, ← represents.capacity_eq]
      have bounded := represents.size_le
      omega
    have stored := (represents.insert key value).answer
    rw [Queue.insert_of_room (represents.find?_eq_none absent) fits] at stored
    exact congrArg (Option.map Displaced.pair) stored

end Represents

end Cache

/-- After some steps along the chain of a cache that evicts by recency, as many of its first pairs
were met and the others are left. -/
theorem Cache.Represents.oldest_eq [BEq κ] [Hashable κ] {cache : Cache .lru κ ν}
    {queue : Queue .lru κ ν} (represents : cache.Represents queue) (steps : Nat) :
    cache.oldest steps = (cache.toList.take steps, cache.size - min steps cache.size) := by
  obtain ⟨listing, lists⟩ := represents.listed
  have yields : cache.store.chain.walk.Yields cache.store.nodes cache.entries :=
    lists.store.yields
  have length : cache.entries.length = cache.size := by
    rw [represents.entries_eq, represents.size_eq]
  have counted : cache.store.chain.walk.remaining = cache.size := by
    have spelled := (RecencyStore.Lists.spells lists.store).length_eq
    rw [List.length_reverse, List.length_map, ← lists.size_eq] at spelled
    exact spelled
  obtain ⟨met, left⟩ := yields.take steps
  rw [length, counted] at left
  rw [oldest, toList, ← List.map_take, ← met, ← left]

variable [BEq κ] [Hashable κ] [EquivBEq κ] [LawfulHashable κ] [BEq ν]

/-- In every state that a cache of any policy can reach, iterating comes to an end after its
pairs, one for each key that is present, with the value that is present; the candidate is the
first of them, popping hands them out in their order and leaves a cache that is as good as new,
and an absent key takes the place of the first if the cache is full. Under recency the iteration
knows after every number of steps how many pairs are left. -/
theorem run_oneOrder :
    (∀ (policy : Policy) (config : CacheConfig) (calls : List (Call κ ν ε ρ)),
      ((Cache.ofConfig config : Cache policy κ ν).run calls).state.OneOrder) ∧
    ∀ (config : CacheConfig) (calls : List (Call κ ν ε ρ)) (steps : Nat),
      let cache : Cache .lru κ ν := ((Cache.ofConfig config).run calls).state
      cache.oldest steps = (cache.toList.take steps, cache.size - min steps cache.size) :=
  ⟨fun _ config calls => ((Cache.represents_ofConfig config).run calls).state.oneOrder,
    fun config calls steps => ((Cache.represents_ofConfig config).run calls).state.oldest_eq steps⟩

/-- Three entries in two buckets are popped by increasing count, the one that was read last in
its bucket last; and of three entries by recency one is left after two steps. -/
theorem run_oneOrder_buckets :
    let calls : List (Call FoldedKey Nat Unit Unit) :=
      [.put ⟨.text "a"⟩ 1, .put ⟨.text "b"⟩ 2, .put ⟨.text "c"⟩ 3, .get ⟨.text "C"⟩,
        .get ⟨.text "A"⟩]
    let bucketed := ((Cache.ofConfig ⟨⟨3, by decide⟩, 16, .threeQuarters⟩ :
      Cache .lfru FoldedKey Nat).run calls).state
    let recent := ((Cache.ofConfig ⟨⟨3, by decide⟩, 16, .threeQuarters⟩ :
      Cache .lru FoldedKey Nat).run calls).state
    (bucketed.run (List.replicate 4 (.pop : Call FoldedKey Nat Unit Unit))).answer =
        [.pair (some (⟨.text "b"⟩, 2)), .pair (some (⟨.text "c"⟩, 3)),
          .pair (some (⟨.text "a"⟩, 1)), .pair none] ∧
      (bucketed.push ⟨.text "d"⟩ 4).answer = some (⟨.text "b"⟩, 2) ∧
      recent.oldest 2 = ([(⟨.text "b"⟩, 2), (⟨.text "c"⟩, 3)], 1) := by
  intro calls bucketed recent
  have order : bucketed.OneOrder := run_oneOrder.1 .lfru _ calls
  have represents : bucketed.Represents _ := ((Cache.represents_ofConfig _).run calls).state
  have listed : bucketed.toList = [(⟨.text "b"⟩, 2), (⟨.text "c"⟩, 3), (⟨.text "a"⟩, 1)] :=
    represents.toList_eq.trans (by cbv)
  have size : bucketed.size = 3 := by rw [← order.length, listed]; rfl
  have absent : bucketed.containsKey ⟨.text "d"⟩ = false :=
    (represents.containsKey_eq _).trans (by cbv)
  have capacity : bucketed.capacity = 3 := Cache.capacity_run _ calls
  have popped := (order.pops (ε := Unit) (ρ := Unit)).1
  have pushed := (order.push_of_full ⟨.text "d"⟩ 4 absent (size.trans capacity.symm)).1
  have walked : recent.oldest 2 = _ := run_oneOrder.2 _ calls 2
  rw [size, listed] at popped
  rw [listed] at pushed
  refine ⟨popped, pushed, walked.trans ?_⟩
  have held : recent.Represents _ := ((Cache.represents_ofConfig _).run calls).state
  rw [held.toList_eq, held.size_eq]
  cbv

end EvictionCache
