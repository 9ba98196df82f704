import EvictionCache.Proofs.Cache.Refinement
import EvictionCache.Proofs.Plain.Refinement
import EvictionCache.Workload.Key
import Mathlib

/-!
# Runs of caches and of plain caches

From the same calls a cache and a plain cache of the same capacity get the same answers, and
after every run the cache lists its entries as the plain cache would if it sorted its slots by
the rule of the policy. Nothing is assumed of keys but that equality is an equivalence that
hashing respects.
-/
namespace EvictionCache

variable {policy : Policy} {κ ν ε ρ : Type} [BEq κ]

/-- A plain cache can sort its slots in the order of eviction. -/
theorem PlainCache.Recalls.ordered {plain : PlainCache policy κ ν} {queue : Queue policy κ ν}
    (recalls : plain.Recalls queue) :
    plain.ordered.Perm plain.slots ∧ plain.ordered.Pairwise fun first second =>
      (first.priority policy).1 < (second.priority policy).1 ∨
        (first.priority policy).1 = (second.priority policy).1 ∧
          (first.priority policy).2 < (second.priority policy).2 := by
  obtain ⟨history, links⟩ := recalls
  rw [links.ordered_eq]
  refine ⟨links.slots, List.pairwise_map.mpr (links.sound.sorted.imp fun before => ?_)⟩
  exact PlainSlot.precedes_iff.mp before

variable [Hashable κ]

/-- What a plain cache tells in order is what the cache lists. -/
theorem Cache.Represents.entries_map {cache : Cache policy κ ν} {plain : PlainCache policy κ ν}
    {queue : Queue policy κ ν} (represents : cache.Represents queue)
    (recalls : plain.Recalls queue) {α : Type} {ofEntry : Entry κ ν policy.Metadata → α}
    {ofSlot : PlainSlot κ ν → α}
    (same : ∀ slot entry, slot.TellsOf entry → ofSlot slot = ofEntry entry) :
    cache.entries.map ofEntry = plain.ordered.map ofSlot := by
  obtain ⟨history, links⟩ := recalls
  rw [represents.entries_eq, links.map_ordered same]

variable [EquivBEq κ] [LawfulHashable κ] [BEq ν]

/-- After every run there is a queue that the cache represents and whose history the plain cache
keeps, and both were asked and answered the same. -/
theorem exists_queue_run (policy : Policy) (config : CacheConfig)
    (calls : List (Call κ ν ε ρ)) :
    ∃ queue : Queue policy κ ν, ((Cache.ofConfig config).run calls).state.Represents queue ∧
      ((PlainCache.ofCapacity config.capacity).run calls).2.Recalls queue ∧
      ((Cache.ofConfig config : Cache policy κ ν).run calls).answer =
        ((PlainCache.ofCapacity config.capacity : PlainCache policy κ ν).run calls).1 := by
  have cache : Outcome.Matches Cache.Represents
      ((Cache.ofConfig config : Cache policy κ ν).run calls) _ :=
    (Cache.represents_ofConfig config).run calls
  have plain : PlainCache.Accords
      ((PlainCache.ofCapacity config.capacity : PlainCache policy κ ν).run calls) _ :=
    (PlainCache.recalls_ofCapacity config.capacity).run calls
  exact ⟨_, cache.state, plain.state, cache.answer.trans plain.answer.symm⟩

/-- A cache that evicts the least recently used of the least frequently used entries answers
every run as a plain cache does that looks for the slot with the smallest count and time of last
access, and lists the slots, with their counts, in the order of these two numbers. -/
theorem run_lfru_eq_plain (config : CacheConfig) (calls : List (Call κ ν ε ρ)) :
    let outcome := (Cache.ofConfig config : Cache .lfru κ ν).run calls
    let plain := (PlainCache.ofCapacity config.capacity : PlainCache .lfru κ ν).run calls
    outcome.answer = plain.1 ∧
      outcome.state.entries.map (fun entry => (entry.pair, entry.metadata.frequency)) =
        plain.2.ordered.map (fun slot => (slot.pair, slot.frequency)) ∧
      plain.2.ordered.Perm plain.2.slots ∧
      plain.2.ordered.Pairwise fun first second =>
        first.frequency < second.frequency ∨
          first.frequency = second.frequency ∧ first.accessedAt < second.accessedAt := by
  obtain ⟨queue, represents, recalls, answers⟩ := exists_queue_run .lfru config calls
  refine ⟨answers, represents.entries_map recalls fun slot entry tells => ?_, recalls.ordered⟩
  have counted : slot.frequency = entry.metadata.frequency := Option.some.inj tells.frequency
  rw [tells.pair_eq, counted]

/-- With room for two entries, the one that was read and replaced under another spelling stays, with
three accesses. -/
theorem run_lfru_spellings :
    let outcome := (Cache.ofConfig ⟨⟨2, by decide⟩, 16, .threeQuarters⟩ :
      Cache .lfru FoldedKey Nat).run
      ([.put ⟨.text "a"⟩ 1, .put ⟨.text "b"⟩ 2, .get ⟨.text "A"⟩, .put ⟨.text "A"⟩ 3,
        .push ⟨.text "c"⟩ 4] : List (Call FoldedKey Nat Unit Unit))
    outcome.answer = [.value none, .value none, .value (some 1), .value (some 1),
        .pair (some (⟨.text "b"⟩, 2))] ∧
      outcome.state.entries.map (fun entry => (entry.pair, entry.metadata.frequency)) =
        [((⟨.text "c"⟩, 4), 1), ((⟨.text "a"⟩, 3), 3)] :=
  ⟨(run_lfru_eq_plain _ _).1.trans (by cbv), (run_lfru_eq_plain _ _).2.1.trans (by cbv)⟩

/-- A cache that evicts the first stored of the least frequently used entries answers every run
as a plain cache does that looks for the slot with the smallest count and time of storing, and
lists the slots, with their counts, in the order of these two numbers. -/
theorem run_lfu_eq_plain (config : CacheConfig) (calls : List (Call κ ν ε ρ)) :
    let outcome := (Cache.ofConfig config : Cache .lfu κ ν).run calls
    let plain := (PlainCache.ofCapacity config.capacity : PlainCache .lfu κ ν).run calls
    outcome.answer = plain.1 ∧
      outcome.state.entries.map (fun entry => (entry.pair, entry.metadata.frequency)) =
        plain.2.ordered.map (fun slot => (slot.pair, slot.frequency)) ∧
      plain.2.ordered.Perm plain.2.slots ∧
      plain.2.ordered.Pairwise fun first second =>
        first.frequency < second.frequency ∨
          first.frequency = second.frequency ∧ first.storedAt < second.storedAt := by
  obtain ⟨queue, represents, recalls, answers⟩ := exists_queue_run .lfu config calls
  refine ⟨answers, represents.entries_map recalls fun slot entry tells => ?_, recalls.ordered⟩
  have counted : slot.frequency = entry.metadata.frequency := Option.some.inj tells.frequency
  rw [tells.pair_eq, counted]

/-- With room for two entries, a key that was removed comes back as the one stored last, and what
was counted for it is forgotten. -/
theorem run_lfu_restored :
    let outcome := (Cache.ofConfig ⟨⟨2, by decide⟩, 16, .threeQuarters⟩ :
      Cache .lfu FoldedKey Nat).run
      ([.put ⟨.text "a"⟩ 1, .put ⟨.text "b"⟩ 2, .get ⟨.text "a"⟩, .put ⟨.text "A"⟩ 3,
        .frequency ⟨.text "a"⟩, .remove ⟨.text "A"⟩, .put ⟨.text "a"⟩ 4, .push ⟨.text "c"⟩ 5] :
        List (Call FoldedKey Nat Unit Unit))
    outcome.answer = [.value none, .value none, .value (some 1), .value (some 1),
        .count (some 3), .value (some 3), .value none, .pair (some (⟨.text "b"⟩, 2))] ∧
      outcome.state.entries.map (fun entry => (entry.pair, entry.metadata.frequency)) =
        [((⟨.text "a"⟩, 4), 1), ((⟨.text "c"⟩, 5), 1)] :=
  ⟨(run_lfu_eq_plain _ _).1.trans (by cbv), (run_lfu_eq_plain _ _).2.1.trans (by cbv)⟩

/-- A cache that evicts the least recently used entry answers every run as a plain cache does
that looks for the slot with the smallest time of last access, and lists the slots in the order
of that time. -/
theorem run_lru_eq_plain (config : CacheConfig) (calls : List (Call κ ν ε ρ)) :
    let outcome := (Cache.ofConfig config : Cache .lru κ ν).run calls
    let plain := (PlainCache.ofCapacity config.capacity : PlainCache .lru κ ν).run calls
    outcome.answer = plain.1 ∧
      outcome.state.toList = plain.2.ordered.map PlainSlot.pair ∧
      plain.2.ordered.Perm plain.2.slots ∧
      plain.2.ordered.Pairwise fun first second => first.accessedAt < second.accessedAt := by
  obtain ⟨queue, represents, recalls, answers⟩ := exists_queue_run .lru config calls
  obtain ⟨same, sorted⟩ := recalls.ordered
  refine ⟨answers, represents.entries_map recalls fun _ _ tells => tells.pair_eq, same,
    sorted.imp fun before => ?_⟩
  rcases before with impossible | ⟨_, before⟩
  · exact absurd impossible (Nat.lt_irrefl 0)
  · exact before

/-- With room for two entries, replacing a value under another spelling counts as a use. The old
value is handed out, with the spelling of the call if a pair is asked for. -/
theorem run_lru_spellings :
    let outcome := (Cache.ofConfig ⟨⟨2, by decide⟩, 16, .threeQuarters⟩ :
      Cache .lru FoldedKey Nat).run
      ([.put ⟨.text "a"⟩ 1, .put ⟨.text "b"⟩ 2, .put ⟨.text "A"⟩ 3, .push ⟨.text "A"⟩ 4,
        .push ⟨.text "c"⟩ 5] : List (Call FoldedKey Nat Unit Unit))
    outcome.answer = [.value none, .value none, .value (some 1), .pair (some (⟨.text "A"⟩, 3)),
        .pair (some (⟨.text "b"⟩, 2))] ∧
      outcome.state.toList = [(⟨.text "a"⟩, 4), (⟨.text "c"⟩, 5)] :=
  ⟨(run_lru_eq_plain _ _).1.trans (by cbv), (run_lru_eq_plain _ _).2.1.trans (by cbv)⟩

end EvictionCache
