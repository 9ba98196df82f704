import EvictionCache.Proofs.Cache.Coherence
import EvictionCache.Proofs.Checked.Cache

/-!
# Runs without a fault

Every run of a new cache does the same with all checks as without, so no operation inside it ever
takes a fallback: what a call relies on holds at each point between its steps. To the callers this
means that nothing is lost quietly. Where the index has a key there is an answer, and where a
cache is full there is an entry to evict.
-/
namespace EvictionCache

open Relation (ReflTransGen)

variable {policy : Policy} {κ ν ε ρ : Type} [BEq κ] [Hashable κ]

namespace Cache

/-- A cache that keeps the promises of its index. -/
structure Answering (cache : Cache policy κ ν) : Prop where
  /-- Reading the value of a present key hands it out. -/
  get : ∀ key, cache.containsKey key = true →
    ∃ value, cache.peek key = some value ∧ (cache.get key).answer = some value
  /-- An action on the value of a present key is run. -/
  visit : ∀ {result : Type} (key : κ) (action : ν → ν × result), cache.containsKey key = true →
    ∃ value, cache.peek key = some value ∧ (cache.visit key action).answer = some (action value).2
  /-- Storing under a present key hands out the value that was stored. -/
  insert_present : ∀ key value, cache.containsKey key = true →
    ∃ old, cache.peek key = some old ∧
      (cache.insert key value).answer = some (.replaced key old)
  /-- Storing under an absent key in a full cache hands out the entry that was the first. -/
  insert_full : ∀ key value, cache.containsKey key = false → cache.capacity ≤ cache.size →
    ∃ first, cache.entries.head? = some first ∧
      (cache.insert key value).answer = some (.evicted first.key first.value)
  /-- Removing a present key hands out its pair under the stored spelling. -/
  removeEntry : ∀ key, cache.containsKey key = true →
    ∃ entry, cache.entry? key = some entry ∧ (cache.removeEntry key).answer = some entry.pair
  /-- Removing the first pair of a cache with keys hands it out. -/
  pop : cache.size ≠ 0 →
    ∃ first, cache.entries.head? = some first ∧ cache.pop.answer = some first.pair
  /-- A listing has an entry for each key of the index. -/
  length_entries : cache.entries.length = cache.size
  /-- Misses can be told from requests and hits. -/
  hits_le : cache.metrics.core.hits ≤ cache.metrics.core.requests

section Hits

variable {cache changed : Cache policy κ ν}

/-- No elementary change counts a hit without a request. -/
theorem Change.hits_le (change : cache.Change changed)
    (le : cache.metrics.core.hits ≤ cache.metrics.core.requests) :
    changed.metrics.core.hits ≤ changed.metrics.core.requests := by
  cases change with
  | miss => exact Nat.le_succ_of_le le
  | hit _ => exact Nat.succ_le_succ le
  | update | write | store | evict | remove | clear => exact le

/-- There are never more hits than requests. -/
theorem hits_le_of_changes (changes : ReflTransGen Change cache changed)
    (le : cache.metrics.core.hits ≤ cache.metrics.core.requests) :
    changed.metrics.core.hits ≤ changed.metrics.core.requests := by
  induction changes with
  | refl => exact le
  | tail _ change ih => exact change.hits_le ih

end Hits

namespace Represents

variable [EquivBEq κ] [LawfulHashable κ] {cache : Cache policy κ ν} {queue : Queue policy κ ν}
  {key : κ}

/-- A key that the index has belongs to an entry. -/
theorem exists_find? (represents : cache.Represents queue)
    (present : cache.containsKey key = true) :
    ∃ entry, queue.find? key = some entry ∧ cache.peek key = some entry.value := by
  rw [represents.containsKey_eq, Option.isSome_iff_exists] at present
  obtain ⟨entry, found⟩ := present
  refine ⟨entry, found, ?_⟩
  rw [peek, represents.entry?_eq, found, Option.map_some]

/-- A cache in order answers. -/
theorem answering (represents : cache.Represents queue)
    (le : cache.metrics.core.hits ≤ cache.metrics.core.requests) : cache.Answering where
  get key present := by
    obtain ⟨entry, found, held⟩ := represents.exists_find? present
    refine ⟨entry.value, held, ?_⟩
    rw [(represents.get key).answer, Queue.visit, found]
    rfl
  visit key action present := by
    obtain ⟨entry, found, held⟩ := represents.exists_find? present
    refine ⟨entry.value, held, ?_⟩
    rw [(represents.visit key action).answer, Queue.visit, found]
    rfl
  insert_present key value present := by
    obtain ⟨entry, found, held⟩ := represents.exists_find? present
    refine ⟨entry.value, held, ?_⟩
    rw [(represents.insert key value).answer, Queue.insert, found]
    rfl
  insert_full key value absent full := by
    rw [represents.containsKey_eq, Option.isSome_eq_false_iff, Option.isNone_iff_eq_none] at absent
    rw [represents.capacity_eq, represents.size_eq] at full
    have nonempty := List.length_pos_iff.mp (Nat.lt_of_lt_of_le represents.capacity_pos full)
    refine ⟨queue.entries.head nonempty, ?_, ?_⟩
    · rw [represents.entries_eq, List.head?_eq_some_head nonempty]
    · rw [(represents.insert key value).answer, Queue.insert, absent]
      dsimp only [Outcome.andThen, Outcome.silent]
      rw [Queue.makeRoom, if_pos full, List.head?_eq_some_head nonempty]
      rfl
  removeEntry key present := by
    obtain ⟨entry, found, _⟩ := represents.exists_find? present
    refine ⟨entry, (represents.entry?_eq key).trans found, ?_⟩
    rw [(represents.removeEntry key).answer, Queue.removeEntry, found]
    rfl
  pop keys := by
    rw [represents.size_eq, ne_eq, List.length_eq_zero_iff] at keys
    refine ⟨queue.entries.head keys, ?_, ?_⟩
    · rw [represents.entries_eq, List.head?_eq_some_head keys]
    · rw [represents.pop.answer, Queue.pop, List.head?_eq_some_head keys]
      rfl
  length_entries := by rw [represents.entries_eq, represents.size_eq]
  hits_le := le

end Represents

end Cache

variable [EquivBEq κ] [LawfulHashable κ] [BEq ν]

/-- Under every policy, a run of a new cache with all checks meets no fault and ends as the run
without them. In the state after the run the cache answers wherever its index has a key or there
is no more room, and a walk along its chains may stop anywhere. -/
theorem run_without_fault (config : CacheConfig) (calls : List (Call κ ν ε ρ)) :
    let cache : Cache policy κ ν := .ofConfig config
    cache.runChecked calls = .ok (cache.run calls) ∧ (cache.run calls).state.Answering ∧
      policy.Walkable (cache.run calls).state.store := by
  intro cache
  have new : cache.Represents (.ofCapacity config.capacity) := Cache.represents_ofConfig config
  have le : (cache.run calls).state.metrics.core.hits ≤
      (cache.run calls).state.metrics.core.requests :=
    Cache.hits_le_of_changes (Cache.changes_ofConfig config calls) (Nat.le_refl 0)
  have reached := (new.run calls).state
  obtain ⟨listing, lists⟩ := reached.listed
  exact ⟨new.runChecked_eq calls, reached.answering le, Policy.Lists.walkable lists.store⟩

/-- With room for two entries, an access under another spelling takes an entry to its own bucket
and removing it empties the bucket; at capacity the entry that stays makes room. -/
theorem run_without_fault_spellings :
    let cache : Cache .lfru FoldedKey Nat := .ofConfig ⟨⟨2, by decide⟩, 16, .threeQuarters⟩
    let calls : List (Call FoldedKey Nat Unit Unit) :=
      [.put ⟨.text "a"⟩ 1, .put ⟨.text "b"⟩ 2, .get ⟨.text "A"⟩, .put ⟨.text "A"⟩ 3,
        .remove ⟨.text "a"⟩, .put ⟨.text "c"⟩ 4, .push ⟨.text "d"⟩ 5, .toList]
    cache.runChecked calls = .ok (cache.run calls) ∧ (cache.run calls).state.Answering ∧
      (cache.run calls).answer = [.value none, .value none, .value (some 1), .value (some 1),
        .value (some 3), .value none, .pair (some (⟨.text "b"⟩, 2)),
        .pairs [(⟨.text "c"⟩, 4), (⟨.text "d"⟩, 5)]] :=
  ⟨(run_without_fault _ _).1, (run_without_fault _ _).2.1,
    ((Cache.represents_ofConfig _).run _).answer.trans (by cbv)⟩

end EvictionCache
