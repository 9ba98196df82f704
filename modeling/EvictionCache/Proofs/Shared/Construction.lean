import EvictionCache.Proofs.Acceptance
import EvictionCache.Proofs.Cache.Turns
import EvictionCache.Proofs.Queue.Ledger
import EvictionCache.Proofs.Shared.Guards
import EvictionCache.Workload.Key

/-!
# Construction

However a cache is built, with default hints or with others, for one owner or to be shared, with
whatever hash of its keys, it is empty and has the capacity that was asked for. What it answers,
logs and counts from then on (`Transcript`) depends on its policy and its capacity alone: it is
what a queue of that capacity answers and logs, and the ledger of that queue.
-/
namespace EvictionCache

variable {policy : Policy} {κ ν ε ρ : Type}

/-- What comes of some requests: the answers, the log, and the metrics after them. -/
structure Transcript (policy : Policy) (κ ν ε ρ : Type) where
  /-- The answers, in the order of the requests. -/
  answers : List (Reply κ ν ε ρ)
  /-- The events, in the order in which they happened. -/
  log : List Event
  /-- What was counted in the end. -/
  metrics : Metrics policy

section Built

variable [BEq κ] [Hashable κ]

/-- The caches that can be built for a number of entries. -/
inductive Cache.Built (entries : Nat) : Cache policy κ ν → Prop where
  /-- From a capacity. -/
  | ofCapacity {capacity : Capacity} (same : capacity.entries = entries) :
      Built entries (.ofCapacity capacity)
  /-- From a number of entries. -/
  | ofEntries {made : Outcome (Cache policy κ ν) Unit}
      (accepted : Cache.ofEntries entries = .ok made) : Built entries made.state
  /-- From a configuration with any hints. -/
  | create {config : CacheConfig} {made : Outcome (Cache policy κ ν) Unit}
      (same : config.capacity.entries = entries) (accepted : Cache.create config = .ok made) :
      Built entries made.state

/-- The shared caches that can be built for a number of entries. -/
inductive SharedCache.Built (entries : Nat) : SharedCache policy κ ν → Prop where
  /-- From a capacity. -/
  | ofCapacity {capacity : Capacity} (same : capacity.entries = entries) :
      Built entries (.ofCapacity capacity)
  /-- From a number of entries. -/
  | ofEntries {made : Outcome (SharedCache policy κ ν) Unit}
      (accepted : SharedCache.ofEntries entries = .ok made) : Built entries made.state
  /-- From a configuration with any hints and any number of expected threads. -/
  | create {config : SharedConfig} {made : Outcome (SharedCache policy κ ν) Unit}
      (same : config.base.capacity.entries = entries)
      (accepted : SharedCache.create config = .ok made) : Built entries made.state

/-- A cache for a number of entries that holds nothing yet. -/
structure Cache.Blank (cache : Cache policy κ ν) (entries : Nat) : Prop where
  /-- It can be built. -/
  built : cache.Built entries
  /-- As many entries fit as were asked for. -/
  capacity_eq : cache.capacity = entries
  /-- There are none yet. -/
  size_eq : cache.size = 0
  /-- None is listed. -/
  toList_eq : cache.toList = []

/-- A shared cache for a number of entries and of threads that holds nothing yet. -/
structure SharedCache.Blank (shared : SharedCache policy κ ν) (entries level : Nat) : Prop where
  /-- It can be built. -/
  built : shared.Built entries
  /-- As many entries fit as were asked for. -/
  capacity_eq : shared.capacity = entries
  /-- As many threads are expected as was said. -/
  concurrencyLevel_eq : shared.concurrencyLevel = level
  /-- There are no entries yet. -/
  size_eq : shared.size = 0
  /-- None is listed in the cache behind the lock, which has the same capacity. -/
  guarded_eq : shared.guarded.capacity = entries ∧ shared.guarded.toList = []

/-- What comes of requests to a cache. -/
def Cache.transcript [BEq ν] (cache : Cache policy κ ν) (requests : List (Request κ ν ε ρ)) :
    Transcript policy κ ν ε ρ :=
  let outcome := cache.serveAll requests
  ⟨outcome.answer, outcome.events, outcome.state.metrics⟩

/-- What comes of a run on a shared cache. -/
def SharedCache.transcript (shared : SharedCache policy κ ν)
    (calls : List (SharedCall κ ν ε ρ)) : Transcript policy κ ν ε ρ :=
  ⟨(shared.run calls).answer, (shared.run calls).events, (shared.run calls).state.metrics⟩

/-- What comes of requests to a queue that is new. -/
def Queue.transcript [BEq ν] (queue : Queue policy κ ν) (requests : List (Request κ ν ε ρ)) :
    Transcript policy κ ν ε ρ :=
  let calls := requests.filterMap Request.call?
  ⟨queue.answers [] requests, (queue.run calls).events, queue.ledger calls⟩

end Built

section Building

variable [BEq κ] [Hashable κ]

namespace Cache

/-- Building from a valid configuration gives the empty cache with that configuration. -/
theorem create_of_upToOne {config : CacheConfig} (range : config.loadFactor.UpToOne) :
    (create config : Except ConfigError (Outcome (Cache policy κ ν) Unit)) =
      .ok ⟨(), ofConfig config, [.cacheCreated policy config.capacity.entries]⟩ := by
  rw [create, config.validate_eq.1 range]
  rfl

/-- What was built from a configuration has that configuration. -/
theorem state_of_create {config : CacheConfig} {made : Outcome (Cache policy κ ν) Unit}
    (accepted : create config = .ok made) : made.state = ofConfig config := by
  rw [create] at accepted
  cases valid : config.validate with
  | error error =>
    rw [valid] at accepted
    cases accepted
  | ok _ =>
    rw [valid] at accepted
    cases accepted
    rfl

/-- An empty cache lists nothing. -/
theorem toList_ofConfig (config : CacheConfig) :
    (ofConfig config : Cache policy κ ν).toList = [] := by
  have empty : (ofConfig config : Cache policy κ ν).entries = [] :=
    policy.lists_emptyStore.entries_eq
  rw [toList, empty, List.map_nil]

/-- A cache that can be built is an empty one. -/
theorem Built.exists_config {cache : Cache policy κ ν} {entries : Nat}
    (built : cache.Built entries) :
    ∃ config, config.capacity.entries = entries ∧ cache = ofConfig config := by
  cases built with
  | ofCapacity same => exact ⟨_, same, rfl⟩
  | ofEntries accepted =>
    rcases Nat.eq_zero_or_pos entries with rfl | positive
    · cases accepted
    · rw [Cache.ofEntries, CacheConfig.ofEntries_of_pos positive] at accepted
      have made : Cache.create (.ofCapacity ⟨entries, positive⟩) = .ok _ := accepted
      exact ⟨_, rfl, state_of_create made⟩
  | create same accepted => exact ⟨_, same, state_of_create accepted⟩

/-- An empty cache of the right capacity holds nothing. -/
theorem Built.blank {config : CacheConfig} {entries : Nat}
    (built : (ofConfig config : Cache policy κ ν).Built entries)
    (same : config.capacity.entries = entries) :
    (ofConfig config : Cache policy κ ν).Blank entries where
  built := built
  capacity_eq := same
  size_eq := Std.HashMap.size_emptyWithCapacity
  toList_eq := toList_ofConfig config

/-- Which caches are built for one owner is decided by the number of entries and the load
factor. -/
theorem build_decided (entries initial : Nat) (factor : Binary32) :
    Decided (build entries initial factor : Except ConfigError (Outcome (Cache policy κ ν) Unit))
      entries none factor fun made => made.state.Blank entries := by
  have shape (positive : 0 < entries) :
      (build entries initial factor : Except ConfigError (Outcome (Cache policy κ ν) Unit)) =
        create ⟨⟨entries, positive⟩, initial, factor⟩ := by
    rw [build, CacheConfig.ofEntries_of_pos positive]
    rfl
  refine .of_cases (fun void => ?_) (fun _ alone => nomatch alone)
    (fun filled _ outside => ?_) (fun filled _ range => ?_)
  · rw [void]
    rfl
  · rw [shape (Nat.pos_of_ne_zero filled), create, (CacheConfig.validate_eq _).2 outside]
    rfl
  · let config : CacheConfig := ⟨⟨entries, Nat.pos_of_ne_zero filled⟩, initial, factor⟩
    have made : create config = .ok ⟨(), (ofConfig config : Cache policy κ ν),
      [.cacheCreated policy entries]⟩ := create_of_upToOne range
    exact ⟨_, (shape _).trans made, (Built.create rfl made).blank rfl⟩

end Cache

namespace SharedCache

/-- Building from a valid configuration gives the empty shared cache with that configuration. -/
theorem create_of_valid {config : SharedConfig} (several : config.concurrencyLevel ≠ 0)
    (range : config.base.loadFactor.UpToOne) :
    (create config : Except ConfigError (Outcome (SharedCache policy κ ν) Unit)) =
      .ok ⟨(), ofConfig config,
        [.sharedCacheCreated policy config.base.capacity.entries config.concurrencyLevel]⟩ := by
  rw [create, SharedConfig.validate, if_neg several, config.base.validate_eq.1 range]
  rfl

/-- What was built from a configuration has that configuration. -/
theorem state_of_create {config : SharedConfig} {made : Outcome (SharedCache policy κ ν) Unit}
    (accepted : create config = .ok made) : made.state = ofConfig config := by
  rw [create] at accepted
  cases valid : config.validate with
  | error error =>
    rw [valid] at accepted
    cases accepted
  | ok _ =>
    rw [valid] at accepted
    cases accepted
    rfl

/-- A shared cache that can be built is an empty one. -/
theorem Built.exists_config {shared : SharedCache policy κ ν} {entries : Nat}
    (built : shared.Built entries) :
    ∃ config, config.base.capacity.entries = entries ∧ shared = ofConfig config := by
  cases built with
  | ofCapacity same => exact ⟨_, same, rfl⟩
  | ofEntries accepted =>
    rcases Nat.eq_zero_or_pos entries with rfl | positive
    · cases accepted
    · rw [SharedCache.ofEntries, Capacity.ofNat?, dif_pos positive] at accepted
      cases accepted
      exact ⟨.ofCapacity ⟨entries, positive⟩, rfl, rfl⟩
  | create same accepted => exact ⟨_, same, state_of_create accepted⟩

/-- An empty shared cache of the right capacity holds nothing. -/
theorem Built.blank {config : SharedConfig} {entries : Nat}
    (built : (ofConfig config : SharedCache policy κ ν).Built entries)
    (same : config.base.capacity.entries = entries) :
    (ofConfig config : SharedCache policy κ ν).Blank entries config.concurrencyLevel where
  built := built
  capacity_eq := same
  concurrencyLevel_eq := rfl
  size_eq := Std.HashMap.size_emptyWithCapacity
  guarded_eq := ⟨same, Cache.toList_ofConfig config.cacheConfig⟩

/-- Which shared caches are built is decided by the number of entries, the number of threads and
the load factor. -/
theorem build_decided (entries initial : Nat) (factor : Binary32) (level : Nat) :
    Decided (build entries initial factor level :
        Except ConfigError (Outcome (SharedCache policy κ ν) Unit))
      entries (some level) factor fun made => made.state.Blank entries level := by
  have shape (positive : 0 < entries) : (build entries initial factor level :
      Except ConfigError (Outcome (SharedCache policy κ ν) Unit)) =
        create ⟨⟨⟨entries, positive⟩, initial, factor⟩, level⟩ := by
    rw [build, CacheConfig.ofEntries_of_pos positive]
    rfl
  have level_eq_zero_iff : some level = some 0 ↔ level = 0 := Option.some_inj
  refine .of_cases (fun void => ?_) (fun filled alone => ?_)
    (fun filled several outside => ?_) (fun filled several range => ?_)
  · rw [void]
    rfl
  · rw [shape (Nat.pos_of_ne_zero filled), create, SharedConfig.validate,
      if_pos (level_eq_zero_iff.mp alone)]
    rfl
  · rw [shape (Nat.pos_of_ne_zero filled), create, SharedConfig.validate,
      if_neg (mt level_eq_zero_iff.mpr several), (CacheConfig.validate_eq _).2 outside]
    rfl
  · let config : SharedConfig := ⟨⟨⟨entries, Nat.pos_of_ne_zero filled⟩, initial, factor⟩, level⟩
    have made : create config = .ok ⟨(), (ofConfig config : SharedCache policy κ ν),
        [.sharedCacheCreated policy entries level]⟩ :=
      create_of_valid (mt level_eq_zero_iff.mpr several) range
    exact ⟨_, (shape _).trans made, (Built.create rfl made).blank rfl⟩

end SharedCache

end Building

section Transcripts

variable [BEq κ] [Hashable κ] [EquivBEq κ] [LawfulHashable κ] [BEq ν] {entries : Nat}

/-- Requests to a cache that was built give what requests to an empty queue give. -/
theorem Cache.Built.transcript_eq {cache : Cache policy κ ν} (built : cache.Built entries)
    (requests : List (Request κ ν ε ρ)) :
    cache.transcript requests = Queue.transcript ⟨entries, [], policy.first⟩ requests := by
  obtain ⟨config, rfl, rfl⟩ := built.exists_config
  let start : Cache policy κ ν := .ofConfig config
  have new : start.Represents (.ofCapacity config.capacity) := Cache.represents_ofConfig config
  have answers : (start.serveAll requests).answer = _ :=
    Cache.answer_serveAll_run config [] requests
  obtain ⟨state, events⟩ := start.serveAll_frame requests
  rw [Cache.transcript, answers, events, state, (new.run _).events, Cache.metrics_run]
  rfl

/-- So does a run on a shared cache that was built. -/
theorem SharedCache.Built.transcript_eq {shared : SharedCache policy κ ν}
    (built : shared.Built entries) (calls : List (SharedCall κ ν ε ρ)) :
    shared.transcript calls =
      Queue.transcript ⟨entries, [], policy.first⟩ (calls.map SharedCall.alone) := by
  obtain ⟨config, rfl, rfl⟩ := built.exists_config
  let alone : Cache policy κ ν := .ofCapacity config.base.capacity
  have guards : (SharedCache.ofConfig config).Guards alone := SharedCache.guards_ofConfig config
  have run := guards.run calls
  have same : alone.Built config.base.capacity.entries := .ofCapacity rfl
  rw [← same.transcript_eq, SharedCache.transcript, Cache.transcript, run.answer, run.events,
    SharedCache.metrics, run.state.agrees.metrics]

end Transcripts

/-- Construction decides nothing but whether there is a cache. A cache for one owner or a shared
one is built exactly if the number of entries is not zero, threads are expected where the number
matters, and the load factor is above zero and up to one; what is reported otherwise is the first
of the three that is wrong. A cache that was built is empty and has the capacity that was asked
for. All caches of one policy that can be built with one capacity, whatever their hints, the
number of threads expected and the hash of their keys, answer, log and count the same whatever is
asked of them, at every moment that their metrics are asked for and in the end, and so do shared
caches in every run of the calls that they have. -/
theorem built_transcripts_eq (policy : Policy) [BEq κ] [EquivBEq κ] [BEq ν] (entries : Nat) :
    (∀ (_ : Hashable κ) (initial : Nat) (factor : Binary32),
      Decided (Cache.build entries initial factor :
          Except ConfigError (Outcome (Cache policy κ ν) Unit))
        entries none factor fun made => made.state.Blank entries) ∧
    (∀ (_ : Hashable κ) (initial : Nat) (factor : Binary32) (level : Nat),
      Decided (SharedCache.build entries initial factor level :
          Except ConfigError (Outcome (SharedCache policy κ ν) Unit))
        entries (some level) factor fun made => made.state.Blank entries level) ∧
    ∃ transcript : List (Request κ ν ε ρ) → Transcript policy κ ν ε ρ,
      ∀ (_ : Hashable κ) (_ : LawfulHashable κ),
        (∀ cache : Cache policy κ ν, cache.Built entries →
          ∀ requests, cache.transcript requests = transcript requests) ∧
        ∀ shared : SharedCache policy κ ν, shared.Built entries →
          ∀ calls, shared.transcript calls = transcript (calls.map SharedCall.alone) :=
  ⟨fun _ initial factor => Cache.build_decided entries initial factor,
    fun _ initial factor level => SharedCache.build_decided entries initial factor level,
    Queue.transcript ⟨entries, [], policy.first⟩,
    fun _ _ => ⟨fun _ built => built.transcript_eq, fun _ built => built.transcript_eq⟩⟩

/-- A cache with the smallest load factor there is, and a shared one whose keys all hash alike, tell
the same. Negative zero is no load factor, but zero threads are reported before it. -/
theorem built_transcripts_eq_subnormal :
    let flat : Hashable FoldedKey := ⟨fun _ => 0⟩
    let negativeZero : Binary32 := ⟨0x80000000⟩
    let calls : List (SharedCall FoldedKey Nat Unit Unit) :=
      [.put ⟨.text "a"⟩ 1, .get ⟨.text "A"⟩, .put ⟨.text "b"⟩ 2, .push ⟨.text "c"⟩ 3, .metrics]
    (∃ (own : Outcome (Cache .lfu FoldedKey Nat) Unit)
      (shared : Outcome (@SharedCache .lfu FoldedKey Nat _ flat) Unit),
      Cache.build 2 0 ⟨1⟩ = .ok own ∧ @SharedCache.build _ _ _ _ flat 2 9 .one 8 = .ok shared ∧
        own.state.transcript (calls.map SharedCall.alone) =
          @SharedCache.transcript _ _ _ _ _ _ flat shared.state calls) ∧
      (Cache.build 2 0 negativeZero :
        Except ConfigError (Outcome (Cache .lfu FoldedKey Nat) Unit)) =
          .error (.invalidLoadFactor negativeZero) ∧
      (SharedCache.build 2 0 negativeZero 0 :
        Except ConfigError (Outcome (SharedCache .lfu FoldedKey Nat) Unit)) =
          .error .zeroConcurrencyLevel := by
  intro flat negativeZero calls
  obtain ⟨single, several, transcript, same⟩ :=
    built_transcripts_eq (κ := FoldedKey) (ν := Nat) (ε := Unit) (ρ := Unit) .lfu 2
  have usual := single inferInstance
  obtain ⟨own, made⟩ := (usual 0 ⟨1⟩).ok_iff.mpr ⟨by decide, by decide, by decide, by decide⟩
  obtain ⟨shared, also⟩ :=
    (several flat 9 .one 8).ok_iff.mpr ⟨by decide, by decide, by decide, by decide⟩
  have lawful : @LawfulHashable FoldedKey _ flat := @LawfulHashable.mk _ _ flat fun _ _ _ => rfl
  refine ⟨⟨own, shared, made, also, ?_⟩, ?_, ?_⟩
  · have left := (same inferInstance inferInstance).1 own.state
      ((usual 0 ⟨1⟩).sound_of_ok own made).built
    have right := (same flat lawful).2 shared.state
      ((several flat 9 .one 8).sound_of_ok shared also).built
    rw [left, right]
  · exact ((usual 0 negativeZero).invalidLoadFactor_iff _).mpr
      ⟨by decide, by decide, fun range => absurd range.2 (by decide), rfl⟩
  · exact (several inferInstance 0 negativeZero 0).zeroConcurrencyLevel_iff.mpr ⟨by decide, rfl⟩

end EvictionCache
