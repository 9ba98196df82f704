import EvictionCache.Proofs.Cache.Books
import EvictionCache.Proofs.Queue.Inclusion
import EvictionCache.Workload.Key
import Mathlib

/-!
# More capacity never hurts

Of two caches that evict by recency and are asked the same, the larger holds whatever the
smaller holds, in the same order among other entries, and finds whatever the smaller finds. The
two soon differ in what they evict and pop, so this is shown of their queues call by call
(`Queue.Within`), with hits that are counted in the smaller cache only if they are in the larger
(`Cache.Within`).
-/
namespace EvictionCache

open List (SublistForall₂)

variable {κ ν ε ρ : Type} [BEq κ] [Hashable κ]

namespace Cache

/-- The queue of a cache in order finds every entry under each spelling of its key. -/
theorem Represents.finds [EquivBEq κ] {policy : Policy} {cache : Cache policy κ ν}
    {queue : Queue policy κ ν} (represents : cache.Represents queue) : queue.Finds := by
  obtain ⟨⟨listing, lists⟩, rfl⟩ := represents
  intro entry member key same
  rw [show cache.queue.entries = listing.map Prod.snd from lists.entries_eq] at member
  obtain ⟨⟨slot, entry⟩, listed, rfl⟩ := List.mem_map.mp member
  exact lists.find?_eq_some listed same

/-- A cache and one at least as large, which holds and has found no less. -/
structure Within (small large : Cache .lru κ ν) : Prop where
  /-- The smaller cache is in order. -/
  left : small.Represents small.queue
  /-- So is the larger. -/
  right : large.Represents large.queue
  /-- The queue of the smaller is within that of the larger. -/
  queues : small.queue.Within large.queue
  /-- The smaller has counted no more hits. -/
  hits_le : small.metrics.core.hits ≤ large.metrics.core.hits

/-- Without entries a cache is within every other that is at least as large. -/
theorem within_ofConfig [EquivBEq κ] [LawfulHashable κ] {config other : CacheConfig}
    (le : config.capacity.entries ≤ other.capacity.entries) :
    (ofConfig config : Cache .lru κ ν).Within (ofConfig other) where
  left := represents_ofConfig config
  right := represents_ofConfig other
  queues := ⟨le, .nil, Nat.add_le_add_left le 0⟩
  hits_le := Nat.le_refl 0

namespace Within

variable {small large : Cache .lru κ ν}

section Looking

variable [EquivBEq κ] (within : small.Within large)

include within

/-- What the smaller cache holds the larger holds. -/
theorem peek_eq_some {key : κ} {value : ν} (held : small.peek key = some value) :
    large.peek key = some value := by
  rw [peek, within.left.entry?_eq, Option.map_eq_some_iff] at held
  obtain ⟨entry, found, rfl⟩ := held
  obtain ⟨other, also, pair⟩ := within.queues.find?_eq_some within.right.finds found
  rw [peek, within.right.entry?_eq, also]
  exact congrArg some pair.value.symm

omit [EquivBEq κ] in
/-- The pairs of the smaller cache are among those of the larger, in the same order. -/
theorem toList_sublist : SublistForall₂ SamePair small.toList large.toList := by
  rw [toList, toList, List.sublistForall₂_map_left_iff, List.sublistForall₂_map_right_iff]
  exact within.queues.entries

variable [LawfulHashable κ]

/-- A key of the smaller cache is a key of the larger. -/
theorem containsKey_eq_true {key : κ} (held : small.containsKey key = true) :
    large.containsKey key = true := by
  rw [within.left.containsKey_eq, Option.isSome_iff_exists] at held
  obtain ⟨entry, found⟩ := held
  obtain ⟨other, also, _⟩ := within.queues.find?_eq_some within.right.finds found
  rw [within.right.containsKey_eq, also, Option.isSome_some]

/-- A lookup that hits in the smaller cache hits in the larger. -/
theorem toNat_hits_le (call : Call κ ν ε ρ) :
    (Turn.hits ⟨small, call⟩).toNat ≤ (Turn.hits ⟨large, call⟩).toNat := by
  refine Bool.toNat_le_toNat (Bool.le_iff_imp.mpr fun hit => ?_)
  rw [Turn.hits, Bool.and_eq_true] at hit ⊢
  refine ⟨hit.1, ?_⟩
  have held : call.key?.any small.containsKey = true := hit.2
  change call.key?.any large.containsKey = true
  cases named : call.key? with
  | none =>
    rw [named] at held
    cases held
  | some key =>
    rw [named] at held
    exact within.containsKey_eq_true held

variable [BEq ν]

/-- A call that does one thing only keeps one cache within the other, and if it looks a key up
and finds it in the smaller cache, it finds the same in the larger. -/
theorem perform_single {call : Call κ ν ε ρ} (single : call.Single) :
    (small.perform call).state.Within (large.perform call).state ∧
      (call.looksUp = true → (small.perform call).answer.found = true →
        (large.perform call).answer = (small.perform call).answer) := by
  have one := within.left.perform call
  have other := within.right.perform call
  obtain ⟨queues, answers⟩ :=
    within.queues.perform within.right.finds within.left.length_le single
  refine ⟨⟨?_, ?_, ?_, ?_⟩, ?_⟩
  · rw [one.state.queue_eq]
    exact one.state
  · rw [other.state.queue_eq]
    exact other.state
  · rw [one.state.queue_eq, other.state.queue_eq]
    exact queues
  · rw [(within.left.books_perform single).core, (within.right.books_perform single).core]
    exact Nat.add_le_add within.hits_le (within.toNat_hits_le call)
  · rw [one.answer, other.answer]
    exact answers

end Looking

variable [EquivBEq κ] [LawfulHashable κ] [BEq ν]

/-- Calls that do one thing each keep one cache within the other. -/
theorem run_single (within : small.Within large) {calls : List (Call κ ν ε ρ)}
    (single : ∀ call ∈ calls, call.Single) :
    (small.run calls).state.Within (large.run calls).state := by
  induction calls generalizing small large with
  | nil => exact within
  | cons call rest ih =>
    obtain ⟨first, others⟩ := List.forall_mem_cons.mp single
    exact ih (within.perform_single first).1 others

/-- Every call keeps one cache within the other. -/
theorem perform (within : small.Within large) (call : Call κ ν ε ρ) :
    (small.perform call).state.Within (large.perform call).state := by
  rw [← (small.run_singly call).1, ← (large.run_singly call).1]
  exact within.run_single fun part => Call.single_of_mem_singly

/-- Every run keeps one cache within the other. -/
theorem run (within : small.Within large) (calls : List (Call κ ν ε ρ)) :
    (small.run calls).state.Within (large.run calls).state := by
  induction calls generalizing small large with
  | nil => exact within
  | cons call rest ih => exact ih (within.perform call)

/-- Whatever a lookup finds in the smaller cache during a run it finds in the larger. -/
theorem answer_run (within : small.Within large) {calls : List (Call κ ν ε ρ)} {place : Nat}
    {call : Call κ ν ε ρ} {reply : Reply κ ν ε ρ} (called : calls[place]? = some call)
    (looksUp : call.looksUp = true) (answered : (small.run calls).answer[place]? = some reply)
    (found : reply.found = true) : (large.run calls).answer[place]? = some reply := by
  induction calls generalizing small large place with
  | nil => cases called
  | cons first rest ih =>
    cases place with
    | zero =>
      obtain rfl := Option.some.inj called
      obtain rfl := Option.some.inj answered
      have single : first.Single := by
        cases first with
        | extend => cases looksUp
        | _ => exact trivial
      exact congrArg some ((within.perform_single single).2 looksUp found)
    | succ place => exact ih (within.perform first) called answered

end Within

end Cache

variable [EquivBEq κ] [LawfulHashable κ] [BEq ν]

/-- Of two caches that evict by recency and were asked the same, the one with at least as much
capacity holds every key of the other with the same value and lists the pairs of the other in
the same order among its own; keys are the same up to spelling, and simply the same if equal
keys are. Every lookup that found its key in the smaller cache got the same answer from the
larger, and the larger has counted no fewer hits. -/
theorem run_lru_within {config other : CacheConfig}
    (le : config.capacity.entries ≤ other.capacity.entries) (calls : List (Call κ ν ε ρ)) :
    let small := (Cache.ofConfig config : Cache .lru κ ν).run calls
    let large := (Cache.ofConfig other : Cache .lru κ ν).run calls
    (∀ key value, small.state.peek key = some value → large.state.peek key = some value) ∧
    SublistForall₂ SamePair small.state.toList large.state.toList ∧
    (LawfulBEq κ → small.state.toList.Sublist large.state.toList) ∧
    (∀ (place : Nat) call reply, calls[place]? = some call → call.looksUp = true →
      small.answer[place]? = some reply → reply.found = true →
        large.answer[place]? = some reply) ∧
    small.state.metrics.core.hits ≤ large.state.metrics.core.hits := by
  intro small large
  have start : (Cache.ofConfig config : Cache .lru κ ν).Within (.ofConfig other) :=
    Cache.within_ofConfig le
  have within : small.state.Within large.state := start.run calls
  refine ⟨fun key value => within.peek_eq_some, within.toList_sublist, fun lawful => ?_,
    fun place call reply => start.answer_run, within.hits_le⟩
  obtain ⟨part, pairs, sublist⟩ := List.sublistForall₂_iff.mp within.toList_sublist
  have same : small.state.toList = part :=
    List.forall₂_eq_eq_eq ▸ pairs.imp fun one other pair =>
      Prod.ext (LawfulBEq.eq_of_beq pair.key) pair.value
  exact same ▸ sublist

/-- The key that was read under another spelling stays with room for two entries and for three;
the larger cache alone still finds the key that the smaller one let go of. -/
theorem run_lru_within_spellings :
    let calls : List (Call FoldedKey Nat Unit Unit) :=
      [.put ⟨.text "a"⟩ 1, .put ⟨.text "b"⟩ 2, .get ⟨.text "A"⟩, .push ⟨.text "c"⟩ 3,
        .get ⟨.text "b"⟩, .getMut ⟨.text "C"⟩ (· + 1)]
    let small := (Cache.ofConfig ⟨⟨2, by decide⟩, 16, .threeQuarters⟩ :
      Cache .lru FoldedKey Nat).run calls
    let large := (Cache.ofConfig ⟨⟨3, by decide⟩, 16, .threeQuarters⟩ :
      Cache .lru FoldedKey Nat).run calls
    2 ≤ 3 ∧ SublistForall₂ SamePair small.state.toList large.state.toList ∧
      small.state.metrics.core.hits ≤ large.state.metrics.core.hits ∧
      small.state.toList = [(⟨.text "a"⟩, 1), (⟨.text "c"⟩, 4)] ∧
      large.state.toList = [(⟨.text "a"⟩, 1), (⟨.text "b"⟩, 2), (⟨.text "c"⟩, 4)] :=
  ⟨by decide, (run_lru_within (by decide) _).2.1, (run_lru_within (by decide) _).2.2.2.2,
    (congrArg (List.map _) ((Cache.represents_ofConfig _).run _).state.entries_eq).trans (by cbv),
    (congrArg (List.map _) ((Cache.represents_ofConfig _).run _).state.entries_eq).trans (by cbv)⟩

end EvictionCache
