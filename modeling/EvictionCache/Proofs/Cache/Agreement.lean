import EvictionCache.Cache.Call
import EvictionCache.Proofs.Outcome

/-!
# Caches that agree

Two caches of one capacity agree when they have the same store and metrics and their indexes
find the same; how the indexes were sized does not matter. Agreeing caches give the same
answers, cause the same events and go on agreeing. The configuration is fixed for good.
-/
namespace EvictionCache.Cache

variable {policy : Policy} {κ ν ε ρ : Type} [BEq κ] [Hashable κ]

section Configuration

variable (cache : Cache policy κ ν)

/-- An access leaves the configuration alone. -/
theorem config_access (key : κ) : (cache.access key).2.config = cache.config := by
  rw [access]
  cases cache.index[key]? <;> rfl

/-- Working on a value leaves the configuration alone. -/
theorem config_visit (key : κ) (action : ν → ν × ρ) :
    (cache.visit key action).state.config = cache.config := by
  have accessed := config_access cache key
  rw [visit]
  split
  · next found => rwa [found] at accessed
  · next found => rwa [found] at accessed

/-- Taking the first entry leaves the configuration alone. -/
theorem config_takeFirst : cache.takeFirst.2.config = cache.config := by
  rw [takeFirst]
  split <;> rfl

/-- Making room leaves the configuration alone. -/
theorem config_makeRoom : cache.makeRoom.state.config = cache.config := by
  have taken := config_takeFirst cache
  rw [makeRoom]
  split
  · split
    · next first => rwa [first] at taken
    · next first => rwa [first] at taken
  · rfl

/-- Storing a value leaves the configuration alone. -/
theorem config_insert (key : κ) (value : ν) :
    (cache.insert key value).state.config = cache.config := by
  rw [insert]
  cases cache.index[key]? with
  | none => exact config_makeRoom cache
  | some slot =>
    dsimp only [replace]
    cases ((cache.record .recordUpdate).touch slot).entryAt? slot <;> rfl

/-- Storing several pairs leaves the configuration alone. -/
theorem config_extend (pairs : List (κ × ν)) :
    (cache.extend pairs).state.config = cache.config := by
  induction pairs generalizing cache with
  | nil => rfl
  | cons pair rest ih => exact (ih _).trans (config_insert cache pair.1 pair.2)

/-- Removing a key leaves the configuration alone. -/
theorem config_removeEntry (key : κ) : (cache.removeEntry key).state.config = cache.config := by
  rw [removeEntry]
  cases cache.index[key]? with
  | none => rfl
  | some slot =>
    dsimp only
    split <;> rfl

/-- Removing the first entry leaves the configuration alone. -/
theorem config_pop : cache.pop.state.config = cache.config := by
  have taken := config_takeFirst cache
  rw [pop]
  split
  · next first => rwa [first] at taken
  · next first => rwa [first] at taken

/-- No call changes the configuration. -/
theorem config_perform [BEq ν] (call : Call κ ν ε ρ) :
    (cache.perform call).state.config = cache.config := by
  cases call with
  | get key | getWith key _ => exact config_access cache key
  | getMut key _ | getMutWith key _ => exact config_visit cache key _
  | put key value | push key value => exact config_insert cache key value
  | extend pairs => exact config_extend cache pairs
  | remove key => exact config_removeEntry cache key
  | pop => exact config_pop cache
  | peek | clear | frequency | containsKey | containsValue | isEmpty | size | capacity
  | candidate | toList => rfl

/-- No request changes the configuration. -/
theorem config_serve [BEq ν] (request : Request κ ν ε ρ) :
    (cache.serve request).state.config = cache.config := by
  cases request with
  | call call => exact config_perform cache call
  | metrics | report => rfl

/-- No run changes the configuration. -/
theorem config_run [BEq ν] (calls : List (Call κ ν ε ρ)) :
    (cache.run calls).state.config = cache.config := by
  induction calls generalizing cache with
  | nil => rfl
  | cons call rest ih => exact (ih _).trans (config_perform cache call)

/-- No call changes the capacity. -/
theorem capacity_perform [BEq ν] (call : Call κ ν ε ρ) :
    (cache.perform call).state.capacity = cache.capacity := by
  rw [capacity, config_perform, capacity]

/-- No run changes the capacity. -/
theorem capacity_run [BEq ν] (calls : List (Call κ ν ε ρ)) :
    (cache.run calls).state.capacity = cache.capacity := by
  rw [capacity, config_run, capacity]

end Configuration

/-- Caches that differ in their hints and in the layout of their indexes only. -/
structure Agrees (left right : Cache policy κ ν) : Prop where
  /-- The same number of entries fits. -/
  capacity : left.config.capacity = right.config.capacity
  /-- The indexes hold the same. -/
  index : left.index.Equiv right.index
  /-- The entries are the same and stand in the same order. -/
  store : left.store = right.store
  /-- The same was counted. -/
  metrics : left.metrics = right.metrics

namespace Agrees

variable {left right : Cache policy κ ν}

/-- Counting the same keeps agreement. -/
theorem record (agrees : left.Agrees right) (change : CoreMetrics → CoreMetrics) :
    (left.record change).Agrees (right.record change) :=
  ⟨agrees.capacity, agrees.index, agrees.store, by
    rw [Cache.record, Cache.record, agrees.metrics]⟩

/-- Touching the same slot keeps agreement. -/
theorem touch (agrees : left.Agrees right) (slot : SlotId) :
    (left.touch slot).Agrees (right.touch slot) := by
  refine ⟨agrees.capacity, agrees.index, ?_, ?_⟩ <;>
    simp only [Cache.touch, agrees.store, agrees.metrics]

/-- Setting the same value keeps agreement. -/
theorem setValue (agrees : left.Agrees right) (slot : SlotId) (value : ν) :
    (left.setValue slot value).Agrees (right.setValue slot value) := by
  refine ⟨agrees.capacity, agrees.index, ?_, agrees.metrics⟩
  simp only [Cache.setValue, agrees.store]

/-- Taking down the shape keeps agreement. -/
theorem recordShape (agrees : left.Agrees right) :
    left.recordShape.Agrees right.recordShape := by
  refine ⟨agrees.capacity, agrees.index, agrees.store, ?_⟩
  simp only [Cache.recordShape, agrees.store, agrees.metrics]

/-- Changing stores and indexes alike keeps agreement. -/
theorem replace (agrees : left.Agrees right) {index other : Std.HashMap κ SlotId}
    (same : index.Equiv other) (store : policy.Store κ ν) :
    Agrees { left with index, store } { right with index := other, store } :=
  ⟨agrees.capacity, same, rfl, agrees.metrics⟩

/-- Both have the same entries. -/
theorem entryAt?_eq (agrees : left.Agrees right) (slot : SlotId) :
    left.entryAt? slot = right.entryAt? slot := by
  rw [entryAt?, entryAt?, agrees.store]

/-- Both list the same entries in the same order. -/
theorem entries_eq (agrees : left.Agrees right) : left.entries = right.entries := by
  rw [entries, entries, agrees.store]

variable [EquivBEq κ] [LawfulHashable κ]

/-- Caches without entries agree if they have the same capacity. -/
theorem ofConfig {config other : CacheConfig} (same : config.capacity = other.capacity) :
    (Cache.ofConfig config : Cache policy κ ν).Agrees (.ofConfig other) where
  capacity := same
  index := Std.HashMap.equiv_emptyWithCapacity_iff_isEmpty.mpr
    Std.HashMap.isEmpty_emptyWithCapacity
  store := rfl
  metrics := rfl

/-- Both are of the same size. -/
theorem size_eq (agrees : left.Agrees right) : left.size = right.size := agrees.index.size_eq

/-- An access finds the same in both. -/
theorem access (agrees : left.Agrees right) (key : κ) :
    ∃ found one other, left.access key = (found, one) ∧ right.access key = (found, other) ∧
      one.Agrees other := by
  rw [Cache.access, Cache.access, agrees.index.getElem?_eq]
  cases right.index[key]? with
  | none => exact ⟨none, _, _, rfl, rfl, agrees.record _⟩
  | some slot =>
    have touched := (agrees.record .recordHit).touch slot
    dsimp only
    rw [touched.entryAt?_eq]
    exact ⟨_, _, _, rfl, rfl, touched⟩

/-- Reading a value does the same to both. -/
theorem get (agrees : left.Agrees right) (key : κ) :
    Outcome.Matches Agrees (left.get key) (right.get key) := by
  obtain ⟨found, one, other, first, second, after⟩ := agrees.access key
  rw [Cache.get, Cache.get, first, second]
  exact .silent after rfl

/-- Working on a value does the same to both. -/
theorem visit (agrees : left.Agrees right) (key : κ) (action : ν → ν × ρ) :
    Outcome.Matches Agrees (left.visit key action) (right.visit key action) := by
  obtain ⟨found, one, other, first, second, after⟩ := agrees.access key
  rw [Cache.visit, Cache.visit, first, second]
  cases found with
  | none => exact .silent after rfl
  | some hit => exact .silent (after.setValue _ _) rfl

/-- The first entry taken out of both is the same. -/
theorem takeFirst (agrees : left.Agrees right) :
    ∃ taken one other, left.takeFirst = (taken, one) ∧ right.takeFirst = (taken, other) ∧
      one.Agrees other := by
  rw [Cache.takeFirst, Cache.takeFirst, agrees.store]
  split
  · next store _ => exact ⟨none, _, _, rfl, rfl, agrees.replace agrees.index store⟩
  · next entry store _ =>
    have erased := agrees.replace (agrees.index.erase entry.key) store
    exact ⟨some entry, _, _, rfl, rfl, erased.recordShape⟩

/-- Making room does the same to both. -/
theorem makeRoom (agrees : left.Agrees right) :
    Outcome.Matches Agrees left.makeRoom right.makeRoom := by
  obtain ⟨taken, one, other, first, second, after⟩ := agrees.takeFirst
  have capacity : left.capacity = right.capacity := congrArg Capacity.entries agrees.capacity
  rw [Cache.makeRoom, Cache.makeRoom, agrees.size_eq, capacity, first, second]
  split
  · cases taken with
    | none => exact .silent after rfl
    | some entry => exact ⟨rfl, after.record _, rfl⟩
  · exact .silent agrees rfl

/-- Adding an entry does the same to both. -/
theorem addEntry (agrees : left.Agrees right) (key : κ) (value : ν) :
    (left.addEntry key value).Agrees (right.addEntry key value) := by
  have counted := agrees.record .recordInsertion
  rw [Cache.addEntry, Cache.addEntry, agrees.store]
  exact (counted.replace (agrees.index.insert key _) _).recordShape

/-- Storing a value does the same to both. -/
theorem insert (agrees : left.Agrees right) (key : κ) (value : ν) :
    Outcome.Matches Agrees (left.insert key value) (right.insert key value) := by
  rw [Cache.insert, Cache.insert, agrees.index.getElem?_eq]
  cases right.index[key]? with
  | none =>
    exact agrees.makeRoom.andThen fun one after => .silent (after.addEntry key value) rfl
  | some slot =>
    have touched := (agrees.record .recordUpdate).touch slot
    dsimp only [Cache.replace]
    rw [touched.entryAt?_eq]
    cases ((right.record .recordUpdate).touch slot).entryAt? slot with
    | none => exact .silent touched rfl
    | some entry => exact .silent (touched.setValue slot value) rfl

/-- Storing several pairs does the same to both. -/
theorem extend (agrees : left.Agrees right) (pairs : List (κ × ν)) :
    Outcome.Matches Agrees (left.extend pairs) (right.extend pairs) := by
  induction pairs generalizing left right with
  | nil => exact .silent agrees rfl
  | cons pair rest ih =>
    exact ((agrees.insert pair.1 pair.2).map _).andThen fun one after => ih after

/-- Removing a key does the same to both. -/
theorem removeEntry (agrees : left.Agrees right) (key : κ) :
    Outcome.Matches Agrees (left.removeEntry key) (right.removeEntry key) := by
  rw [Cache.removeEntry, Cache.removeEntry, agrees.index.getElem?_eq, agrees.store]
  cases right.index[key]? with
  | none => exact .silent agrees rfl
  | some slot =>
    have index := agrees.index.erase key
    dsimp only
    split
    · next store _ => exact .silent (agrees.replace index store) rfl
    · next entry store _ =>
      have counted := agrees.record .recordRemoval
      exact .silent (counted.replace index store).recordShape rfl

/-- Removing the first entry does the same to both. -/
theorem pop (agrees : left.Agrees right) : Outcome.Matches Agrees left.pop right.pop := by
  obtain ⟨taken, one, other, first, second, after⟩ := agrees.takeFirst
  rw [Cache.pop, Cache.pop, first, second]
  cases taken with
  | none => exact .silent after rfl
  | some entry => exact .silent (after.record _) rfl

/-- Removing every entry does the same to both. -/
theorem clear (agrees : left.Agrees right) : Outcome.Matches Agrees left.clear right.clear := by
  refine ⟨rfl, ?_, ?_⟩
  · rw [Cache.clear, Cache.clear, agrees.store]
    exact (agrees.replace .rfl _).recordShape
  · rw [Cache.clear, Cache.clear, agrees.size_eq]

/-- Both find the same entry under a key. -/
theorem entry?_eq (agrees : left.Agrees right) (key : κ) :
    Cache.entry? left key = Cache.entry? right key := by
  unfold Cache.entry?
  rw [agrees.index.getElem?_eq]
  exact Option.bind_congr fun slot _ => agrees.entryAt?_eq slot

variable [BEq ν]

/-- Every call does the same to both. -/
theorem perform (agrees : left.Agrees right) (call : Call κ ν ε ρ) :
    Outcome.Matches Agrees (left.perform call) (right.perform call) := by
  cases call with
  | get key => exact (agrees.get key).map Reply.value
  | getMut key write => exact (agrees.visit key _).map Reply.value
  | getWith key result => exact (agrees.get key).map fun value => Reply.result (value.map result)
  | getMutWith key closure => exact (agrees.visit key _).map Reply.result
  | peek key => exact .silent agrees (by rw [peek, peek, agrees.entry?_eq])
  | put key value => exact ((agrees.insert key value).map _).map Reply.value
  | push key value => exact ((agrees.insert key value).map _).map Reply.pair
  | extend pairs => exact (agrees.extend pairs).map fun _ => Reply.done
  | remove key => exact ((agrees.removeEntry key).map _).map Reply.value
  | pop => exact agrees.pop.map Reply.pair
  | clear => exact agrees.clear.map fun _ => Reply.done
  | frequency key => exact .silent agrees (by rw [frequency?, frequency?, agrees.entry?_eq])
  | containsKey key =>
    exact .silent agrees (congrArg _ (agrees.index.contains_eq))
  | containsValue value =>
    exact .silent agrees (by simp only [containsValue, toList, agrees.entries_eq])
  | isEmpty => exact .silent agrees (congrArg _ agrees.index.isEmpty_eq)
  | size => exact .silent agrees (by rw [agrees.size_eq])
  | capacity =>
    exact .silent agrees (congrArg (fun capacity => Reply.number capacity.entries) agrees.capacity)
  | candidate =>
    have same : left.candidate? = right.candidate? := by
      rw [candidate?, candidate?, agrees.store]
      exact congrArg _ (Option.bind_congr fun slot _ => agrees.entryAt?_eq slot)
    exact .silent agrees (congrArg _ same)
  | toList => exact .silent agrees (by rw [toList, toList, agrees.entries_eq])

/-- Every request does the same to both. -/
theorem serve (agrees : left.Agrees right) (request : Request κ ν ε ρ) :
    Outcome.Matches Agrees (left.serve request) (right.serve request) := by
  cases request with
  | call call => exact agrees.perform call
  | metrics => exact .silent agrees (by rw [agrees.metrics])
  | report => exact .silent agrees (by rw [agrees.metrics])

end Agrees

end EvictionCache.Cache
