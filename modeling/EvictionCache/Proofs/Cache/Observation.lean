import EvictionCache.Proofs.Cache.Agreement
import EvictionCache.Proofs.Cache.Refinement
import EvictionCache.Proofs.Cache.Turns
import EvictionCache.Proofs.Queue.Likeness
import EvictionCache.Workload.Key
import Mathlib

/-!
# What can be observed of a cache

An observer sees the pairs of a cache with their counts in the order of eviction and, where the
policy goes by it, which of two entries was stored first. Nothing else that a cache has been
through makes a difference: caches of one capacity that look the same answer every later run the
same and go on looking the same, whatever slots they use, whichever of them are vacant and
however far their sequence numbers have run. A cache whose entries have all left, by whatever
calls, looks like a new one.
-/
namespace EvictionCache

variable {policy : Policy} {κ ν ε ρ : Type}

/-- What can be seen of entries that stand in order. -/
structure Observation (κ ν : Type) where
  /-- The stored keys with their values and counts. -/
  sights : List (κ × ν × Option Nat)
  /-- Whether the entry in one place was stored before the entry in another. -/
  older : Nat → Nat → Prop

/-- Looks at entries that stand in order. -/
def Policy.observe (policy : Policy) (entries : List (Entry κ ν policy.Metadata)) :
    Observation κ ν where
  sights := entries.map policy.sight
  older first second := ∃ one other, entries[first]? = some one ∧ entries[second]? = some other ∧
    policy.Older one.metadata other.metadata

namespace Queue

variable {left right : Queue policy κ ν}

/-- Alike queues are seen alike. -/
theorem Alike.observe_eq (alike : left.Alike right) :
    policy.observe left.entries = policy.observe right.entries := by
  have sights : left.entries.map policy.sight = right.entries.map policy.sight :=
    alike.map_eq id
  obtain ⟨cells, likens⟩ := alike
  have older (first second : Nat) : (policy.observe left.entries).older first second ↔
      (policy.observe right.entries).older first second := by
    simp only [Policy.observe, likens.left_eq, likens.right_eq, List.getElem?_map,
      Option.map_eq_some_iff]
    constructor
    · rintro ⟨_, _, ⟨cell, one, rfl⟩, ⟨other, two, rfl⟩, older⟩
      exact ⟨_, _, ⟨cell, one, rfl⟩, ⟨other, two, rfl⟩, (likens.likens.older cell
        (List.mem_of_getElem? one) other (List.mem_of_getElem? two)).mp older⟩
    · rintro ⟨_, _, ⟨cell, one, rfl⟩, ⟨other, two, rfl⟩, older⟩
      exact ⟨_, _, ⟨cell, one, rfl⟩, ⟨other, two, rfl⟩, (likens.likens.older cell
        (List.mem_of_getElem? one) other (List.mem_of_getElem? two)).mpr older⟩
  rw [Policy.observe, Policy.observe, Observation.mk.injEq]
  exact ⟨sights, funext fun first => funext fun second => propext (older first second)⟩

/-- Queues that are seen alike are alike, if new entries will be and all entries were stored
before those. -/
theorem alike_of_observe_eq (capacity : left.capacity = right.capacity)
    (same : policy.observe left.entries = policy.observe right.entries)
    (fresh : policy.frequency? left.fresh = policy.frequency? right.fresh)
    (given : ∀ entry ∈ left.entries, policy.Given left.fresh entry.metadata)
    (also : ∀ entry ∈ right.entries, policy.Given right.fresh entry.metadata) :
    left.Alike right := by
  have sights : left.entries.map policy.sight = right.entries.map policy.sight :=
    congrArg Observation.sights same
  have lengths : left.entries.length = right.entries.length := by
    rw [← List.length_map policy.sight, sights, List.length_map]
  -- A pair stands in one place of both queues.
  have places {cell} (member : cell ∈ left.entries.zip right.entries) :
      ∃ place : Nat, left.entries[place]? = some cell.1 ∧ right.entries[place]? = some cell.2 := by
    obtain ⟨place, found⟩ := List.mem_iff_getElem?.mp member
    exact ⟨place, List.getElem?_zip_eq_some.mp found⟩
  refine ⟨left.entries.zip right.entries, capacity, (List.map_fst_zip lengths.le).symm,
    (List.map_snd_zip lengths.ge).symm, ⟨?_, ?_⟩, fresh, ?_⟩
  · intro cell member
    obtain ⟨place, one, two⟩ := places member
    have seen := congrArg (·[place]?) sights
    simp only [List.getElem?_map, one, two] at seen
    exact Option.some.inj seen
  · intro cell member other another
    obtain ⟨first, one, two⟩ := places member
    obtain ⟨second, three, four⟩ := places another
    have seen := congrFun (congrFun (congrArg Observation.older same) first) second
    simpa [Policy.observe, one, two, three, four] using seen
  · intro cell member
    obtain ⟨place, one, two⟩ := places member
    exact ⟨given _ (List.mem_of_getElem? one), also _ (List.mem_of_getElem? two)⟩

end Queue

namespace Queue

variable {queue : Queue policy κ ν} [BEq κ] [BEq ν]

/-- Popping leaves out as many entries as were popped. -/
theorem entries_run_pops (queue : Queue policy κ ν) (times : Nat) :
    (queue.run (List.replicate times (.pop : Call κ ν ε ρ))).state.entries =
      queue.entries.drop times := by
  induction times generalizing queue with
  | zero => rfl
  | succ times ih => exact (ih queue.dropFirst).trans List.drop_tail

/-- Removing keys leaves the entries of other keys. -/
theorem entries_run_removes (queue : Queue policy κ ν) (keys : List κ) :
    (queue.run (keys.map (.remove : κ → Call κ ν ε ρ))).state.entries =
      queue.entries.filter fun entry => keys.all fun key => !(entry.key == key) := by
  induction keys generalizing queue with
  | nil => exact (List.filter_eq_self.mpr fun _ _ => rfl).symm
  | cons key rest ih =>
    refine (ih (queue.discard key)).trans ?_
    rw [discard, List.filter_filter]
    apply List.filter_congr
    intro entry _
    rw [List.all_cons, Bool.and_comm]

end Queue

namespace Cache

variable [BEq κ] [Hashable κ]

/-- What can be seen of a cache. -/
def observe (cache : Cache policy κ ν) : Observation κ ν := policy.observe cache.entries

namespace Represents

variable {cache other : Cache policy κ ν} {queue another : Queue policy κ ν}

/-- All entries were stored before the next one. -/
theorem given (represents : cache.Represents queue) :
    ∀ entry ∈ queue.entries, policy.Given queue.fresh entry.metadata := by
  obtain ⟨⟨listing, lists⟩, rfl⟩ := represents
  intro entry member number known
  rw [show cache.queue.entries = listing.map Prod.snd from lists.entries_eq] at member
  obtain ⟨cell, listed, rfl⟩ := List.mem_map.mp member
  cases policy with
  | lru | lfru => cases known
  | lfu => exact ⟨_, _, rfl, rfl, RankedStore.Lists.next lists.store cell listed⟩

/-- The next entry will be new to every cache. -/
theorem frequency?_fresh (represents : cache.Represents queue) :
    policy.frequency? queue.fresh = policy.frequency? policy.first := by
  rw [← represents.queue_eq]
  cases policy <;> rfl

/-- Caches of one capacity that look the same have queues that are alike. -/
theorem alike (represents : cache.Represents queue) (also : other.Represents another)
    (capacity : cache.capacity = other.capacity) (same : cache.observe = other.observe) :
    queue.Alike another := by
  apply Queue.alike_of_observe_eq
  · rw [← represents.capacity_eq, capacity, also.capacity_eq]
  · rw [← represents.entries_eq, ← also.entries_eq]
    exact same
  · rw [represents.frequency?_fresh, also.frequency?_fresh]
  · exact represents.given
  · exact also.given

/-- However its entries left, a cache without any looks like one that never had any. -/
theorem observe_of_size (represents : cache.Represents queue) (also : other.Represents another)
    (empty : cache.size = 0) (void : other.size = 0) : cache.observe = other.observe := by
  rw [represents.size_eq, List.length_eq_zero_iff] at empty
  rw [also.size_eq, List.length_eq_zero_iff] at void
  rw [observe, observe, represents.entries_eq, also.entries_eq, empty, void]

variable [EquivBEq κ] [LawfulHashable κ] [BEq ν]

/-- Caches whose queues are alike answer the same and look the same after every run. -/
theorem run_of_alike (represents : cache.Represents queue) (also : other.Represents another)
    (alike : queue.Alike another) (calls : List (Call κ ν ε ρ)) :
    (cache.run calls).answer = (other.run calls).answer ∧
      (cache.run calls).state.observe = (other.run calls).state.observe := by
  have one := represents.run calls
  have two := also.run calls
  have same := alike.run calls
  refine ⟨one.answer.trans (same.answer.trans two.answer.symm), ?_⟩
  rw [observe, observe, one.state.entries_eq, two.state.entries_eq]
  exact same.state.observe_eq

/-- Nothing is left once as many entries were popped as there were. -/
theorem size_run_pops (represents : cache.Represents queue) :
    (cache.run (List.replicate cache.size (.pop : Call κ ν ε ρ))).state.size = 0 := by
  rw [(represents.run _).state.size_eq, queue.entries_run_pops, represents.size_eq,
    List.drop_length]
  rfl

/-- Nothing is left once every key was removed. -/
theorem size_run_removes (represents : cache.Represents queue) {keys : List κ}
    (all : ∀ pair ∈ cache.toList, pair.1 ∈ keys) :
    (cache.run (keys.map (.remove : κ → Call κ ν ε ρ))).state.size = 0 := by
  rw [(represents.run _).state.size_eq, queue.entries_run_removes, List.length_eq_zero_iff,
    List.filter_eq_nil_iff]
  intro entry member kept
  rw [← represents.entries_eq] at member
  have gone := List.all_eq_true.mp kept entry.key (all _ (List.mem_map_of_mem member))
  rw [BEq.rfl] at gone
  cases gone

end Represents

end Cache

variable [BEq κ] [Hashable κ] [EquivBEq κ] [LawfulHashable κ] [BEq ν]

/-- Caches of one policy and one capacity that look the same, whatever calls they went through,
answer every later run the same and look the same after it. In particular a cache whose entries
have all left answers every later run like a new one; that is so after clearing it, after
popping as many entries as there were, and after removing every key, in whatever order. -/
theorem run_eq_of_observe_eq (policy : Policy) {config other : CacheConfig}
    (capacity : config.capacity = other.capacity) (before since : List (Call κ ν ε ρ)) :
    let left := ((Cache.ofConfig config : Cache policy κ ν).run before).state
    let right := ((Cache.ofConfig other : Cache policy κ ν).run since).state
    (left.observe = right.observe → ∀ later : List (Call κ ν ε ρ),
      (left.run later).answer = (right.run later).answer ∧
        (left.run later).state.observe = (right.run later).state.observe) ∧
    (∀ emptying : List (Call κ ν ε ρ), (left.run emptying).state.size = 0 →
      ∀ later : List (Call κ ν ε ρ),
        let fresh := (Cache.ofConfig other : Cache policy κ ν).run later
        ((left.run emptying).state.run later).answer = fresh.answer ∧
          ((left.run emptying).state.run later).state.observe = fresh.state.observe) ∧
    (left.run ([.clear] : List (Call κ ν ε ρ))).state.size = 0 ∧
    (left.run (List.replicate left.size (.pop : Call κ ν ε ρ))).state.size = 0 ∧
    ∀ keys : List κ, (∀ pair ∈ left.toList, pair.1 ∈ keys) →
      (left.run (keys.map (.remove : κ → Call κ ν ε ρ))).state.size = 0 := by
  intro left right
  have empty : (Cache.ofConfig other : Cache policy κ ν).Represents _ :=
    Cache.represents_ofConfig other
  have one : left.Represents _ := ((Cache.represents_ofConfig config).run before).state
  have two : right.Represents _ := (empty.run since).state
  have fits : left.capacity = right.capacity := by
    rw [Cache.capacity_run, Cache.capacity_run]
    exact congrArg Capacity.entries capacity
  refine ⟨fun same => one.run_of_alike two (one.alike two fits same), ?emptied, ?_,
    one.size_run_pops, fun keys => one.size_run_removes⟩
  case emptied =>
    intro emptying void later fresh
    have emptied := (one.run emptying).state
    have unused : (Cache.ofConfig other : Cache policy κ ν).size = 0 :=
      Std.HashMap.size_emptyWithCapacity
    refine emptied.run_of_alike empty (emptied.alike empty ?_ ?_) later
    · rw [Cache.capacity_run, fits, Cache.capacity_run]
    · exact emptied.observe_of_size empty void unused
  · rw [(one.run _).state.size_eq]
    rfl

/-- A cache that was filled again after it was cleared looks like one that was filled at once,
though its sequence numbers are others, and gives the same pair away when it is full. -/
theorem run_eq_of_observe_eq_cleared :
    let filling : List (Call FoldedKey Nat Unit Unit) := [.put ⟨.text "a"⟩ 1, .put ⟨.text "b"⟩ 2]
    let later : List (Call FoldedKey Nat Unit Unit) := [.get ⟨.text "A"⟩, .push ⟨.text "c"⟩ 3]
    let once := ((Cache.ofConfig ⟨⟨2, by decide⟩, 16, .threeQuarters⟩ :
      Cache .lfu FoldedKey Nat).run filling).state
    let again := ((Cache.ofConfig ⟨⟨2, by decide⟩, 0, .threeQuarters⟩ :
      Cache .lfu FoldedKey Nat).run ([.put ⟨.text "d"⟩ 4] ++ [.clear] ++ filling)).state
    once.observe = again.observe ∧ (once.run later).answer = (again.run later).answer ∧
      (once.run later).answer = [.value (some 1), .pair (some (⟨.text "b"⟩, 2))] := by
  intro filling later once again
  let narrow : CacheConfig := ⟨⟨2, by decide⟩, 0, .threeQuarters⟩
  let usual : CacheConfig := ⟨⟨2, by decide⟩, 16, .threeQuarters⟩
  let other : List (Call FoldedKey Nat Unit Unit) := [.put ⟨.text "d"⟩ 4]
  obtain ⟨_, emptied, cleared, _⟩ :=
    run_eq_of_observe_eq .lfu (show narrow.capacity = usual.capacity from rfl) other []
  have same : once.observe = again.observe := by
    rw [show again = _ from (Cache.run_append _ _ _).1, (Cache.run_append _ _ _).1]
    exact (emptied [.clear] cleared filling).2.symm
  obtain ⟨alike, _⟩ :=
    run_eq_of_observe_eq .lfu (show usual.capacity = narrow.capacity from rfl) filling
      (other ++ [.clear] ++ filling)
  exact ⟨same, (alike same later).1,
    (((Cache.represents_ofConfig _).run filling).state.run later).answer.trans (by cbv)⟩

end EvictionCache
