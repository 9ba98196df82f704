import EvictionCache.Proofs.Cache.Figures
import EvictionCache.Proofs.Shared.Endings
import EvictionCache.Proofs.Shared.Release
import Mathlib

/-!
# A closure that fails leaves what one that finishes leaves

All that an access does to a cache is done before the closure of the caller takes its first
step, and the closure can only write the value in its slot. So at every moment of its work all
parts of the cache agree, and when it ends, with a result or a failure, the cache is left as by
any closure that wrote the same value last. The lock is given back in both cases, after as many
steps of its thread as the closure takes, and from then on no thread can tell how it ended.
-/
namespace EvictionCache

open Relation (ReflTransGen)

/-- What an entry carries has come to count one more access: a count grows by one unless it is the
greatest of 64 bits, and a sequence number stays. -/
def Policy.OnceMore : (policy : Policy) → (before after : policy.Metadata) → Prop
  | .lru, _, _ => True
  | .lfu, before, after =>
    after.frequency = min (before.frequency + 1) (UInt64.size - 1) ∧
      after.sequence = before.sequence
  | .lfru, before, after => after.frequency = min (before.frequency + 1) (UInt64.size - 1)

/-- Counting one more access leaves no choice. -/
theorem Policy.onceMore_iff {policy : Policy} {before after : policy.Metadata} :
    policy.OnceMore before after ↔ after = policy.accessed before := by
  cases policy with
  | lru => exact ⟨fun _ => rfl, fun _ => trivial⟩
  | lfu =>
    constructor
    · rintro ⟨counted, stored⟩
      exact congrArg₂ Rank.mk (counted.trans (nextCount_eq _).symm) stored
    · rintro rfl
      exact ⟨nextCount_eq _, rfl⟩
  | lfru =>
    constructor
    · exact fun counted => congrArg AccessCount.mk (counted.trans (nextCount_eq _).symm)
    · rintro rfl
      exact nextCount_eq _

variable {policy : Policy} {κ ν ε ρ : Type} [BEq κ] [Hashable κ]

namespace Cache

/-- All parts of a cache agree. -/
def Coherent : {policy : Policy} → Cache policy κ ν → Prop
  | .lru, cache => cache.RecencyCoherent
  | .lfu, cache => cache.RankingCoherent
  | .lfru, cache =>
    cache.BucketsCoherent ∧ cache.metrics.usage.activeBuckets = cache.store.buckets.size

section Changes

variable [EquivBEq κ] [LawfulHashable κ] {cache : Cache policy κ ν} {config : CacheConfig}

/-- All parts of what elementary changes make of a new cache agree. -/
theorem coherent_of_changes
    (changes : ReflTransGen Change (ofConfig config : Cache policy κ ν) cache) :
    cache.Coherent := by
  obtain ⟨listing, lists, counts⟩ := exists_lists_of_changes_ofConfig changes
  cases policy with
  | lru => exact Lists.recencyCoherent lists
  | lfu =>
    exact Lists.rankingCoherent lists (fun cell here => counts cell here _ rfl)
      (nextSequence_of_changes changes rfl)
  | lfru =>
    exact ⟨Lists.bucketsCoherent lists fun cell here => counts cell here _ rfl,
      activeBuckets_of_changes changes (lists_ofConfig config) rfl⟩

end Changes

end Cache

namespace SharedCache

variable {shared : SharedCache policy κ ν} {listing : Listing (Entry κ ν policy.Metadata)}
  {key : κ} {slot : SlotId} {entry : Entry κ ν policy.Metadata}

/-- Work on the value of an entry has left one access to it and one value. -/
structure Accessed (before after : SharedCache policy κ ν) (entry : Entry κ ν policy.Metadata)
    (value : ν) : Prop where
  /-- Only the guarded cache changed. -/
  frame : after = { before with guarded := after.guarded }
  /-- It has the same configuration. -/
  config : after.guarded.config = before.guarded.config
  /-- Every key is where it was. -/
  index : after.guarded.index = before.guarded.index
  /-- One lookup found its key, and nothing else was counted. -/
  core : after.guarded.metrics.core = before.guarded.metrics.core.recordHit
  /-- The figures about counts grew by one access to the entry. -/
  usage : policy.counted after.guarded.metrics.usage =
    policy.mergeUsage (policy.counted before.guarded.metrics.usage) (policy.added (some entry))
  /-- The entry left its place for its new one with the value, and no other entry moved. -/
  queue : after.guarded.queue = before.guarded.queue.renew entry value
  /-- The entry is found with the value and one more access. -/
  found : ∀ key, (entry.key == key) = true → ∃ metadata,
    Cache.entry? after.guarded key = some ⟨entry.key, value, metadata⟩ ∧
      policy.OnceMore entry.metadata metadata

/-- Work on the value of a present key is done after all that an access does. -/
theorem getMutWith_of_some [EquivBEq κ] (lists : shared.guarded.Lists listing)
    (found : shared.guarded.index[key]? = some slot) (member : (slot, entry) ∈ listing)
    (closure : Closure ν ε ρ) :
    shared.getMutWith key closure =
      .silent (some (closure.run entry.value).2) { shared with
        guarded := ((shared.guarded.record .recordHit).touch slot).setValue slot
          (closure.run entry.value).1 } := by
  rw [getMutWith, locked, Cache.visit_of_some (lists.access_of_some found member)]
  rfl

/-- Work on the value of an absent key is not done. -/
theorem getMutWith_of_none (absent : shared.guarded.index[key]? = none)
    (closure : Closure ν ε ρ) :
    shared.getMutWith key closure =
      .silent none { shared with guarded := shared.guarded.record .recordMiss } := by
  rw [getMutWith, locked, Cache.visit_of_none (Cache.access_of_none absent)]
  rfl

/-- Work on the value of an entry leaves one access to it and one value. -/
theorem accessed_of_lists [EquivBEq κ] (lists : shared.guarded.Lists listing)
    (member : (slot, entry) ∈ listing) (value : ν) :
    shared.Accessed { shared with
      guarded := ((shared.guarded.record .recordHit).touch slot).setValue slot value }
      entry value := by
  have hit : (shared.guarded.record .recordHit).Lists listing := lists.withMetrics _
  have placed := (hit.touch member).entryAt?_eq
    ((Policy.placeCell_perm _ _).mem_iff.mpr List.mem_cons_self)
  exact {
    frame := rfl
    config := rfl
    index := rfl
    core := rfl
    usage := hit.usage_touch member
    queue := hit.queue_renew member value
    found := fun key same => by
      have sought : shared.guarded.index[key]? = some slot :=
        (lists.find_iff key slot).mpr ⟨entry, lists.entryAt?_eq member, same⟩
      exact ⟨_, (congrArg (Option.bind · _) sought).trans (Cache.entryAt?_setValue placed value),
        Policy.onceMore_iff.mpr rfl⟩ }

/-- Work on the value of a key makes elementary changes only. -/
theorem changes_getMutWith [EquivBEq κ] [LawfulHashable κ] [BEq ν]
    (lists : shared.guarded.Lists listing) (key : κ) (closure : Closure ν ε ρ) :
    ReflTransGen Cache.Change shared.guarded (shared.getMutWith key closure).state.guarded :=
  (lists.represents rfl).changes_visit key closure.run

end SharedCache

namespace Stepwise

variable {stepwise : Stepwise policy κ ν ε ρ} {number : Nat}

/-- No closure is at work after the step of a thread whose key is absent. -/
theorem visit?_step_of_none {key : κ} {closure : Closure ν ε ρ}
    (absent : stepwise.system.shared.guarded.index[key]? = none)
    (still : stepwise.visit? = none)
    (runs : stepwise.system.closure? number = some (key, closure)) :
    (stepwise.step number).visit? = none := by
  rw [step, still]
  dsimp only
  rw [runs]
  dsimp only
  rw [begin, Cache.access_of_none absent]

/-- Threads before their first calls do not hold the lock. -/
theorem sound_ofPrograms (shared : SharedCache policy κ ν)
    (programs : List (List (SharedCall κ ν ε ρ))) :
    (ofPrograms shared programs).Sound := by
  refine .of_none fun number thread found holds => ?_
  rw [show (System.ofPrograms shared programs).threads = programs.map .ofProgram from rfl,
    List.getElem?_map] at found
  obtain ⟨program, _, rfl⟩ := Option.map_eq_some_iff.mp found
  exact absurd holds id

/-- A schedule makes elementary changes only. -/
theorem changes_run [EquivBEq κ] [LawfulHashable κ] [BEq ν] {config : CacheConfig}
    (changes : ReflTransGen Cache.Change (.ofConfig config) stepwise.system.shared.guarded)
    (schedule : List Nat) :
    ReflTransGen Cache.Change (.ofConfig config)
      (stepwise.run schedule).system.shared.guarded := by
  induction schedule generalizing stepwise with
  | nil => exact changes
  | cons number rest ih =>
    obtain ⟨listing, lists, _⟩ := Cache.exists_lists_of_changes_ofConfig changes
    exact ih (changes.trans (changes_step (lists.represents rfl) number))

end Stepwise

/-- Threads share a cache and run their closures one step at a time, under any schedule. At every
moment, also while a closure is at work, all parts of the cache agree. How closures end makes no
difference to anything but the answers that tell it, at any moment to any thread: failures may be
taken for results. Under a schedule without the steps of the closures, calls that work at once do
the same. A thread that has taken the lock gives it back, with its call done, after a number of
steps of its own, whatever steps of other threads come in between.

A closure on a present key leaves one access to its entry and the value that it wrote last; every
closure that leaves the same value, however it ends, leaves the same cache. A closure on an
absent key is not run, and one more request is counted. A closure that only reads leaves what
reading leaves. -/
theorem run_closures_complete (policy : Policy) [EquivBEq κ] [LawfulHashable κ] [BEq ν]
    (config : SharedConfig) (programs : List (List (SharedCall κ ν ε ρ)))
    (schedule : List Nat) :
    let start : SharedCache policy κ ν := .ofConfig config
    let stepwise := (Stepwise.ofPrograms start programs).run schedule
    let shared := stepwise.system.shared
    shared.guarded.Coherent ∧
    (∀ {δ σ : Type} (change : Except ε ρ → Except δ σ),
      (Stepwise.ofPrograms start (programs.map (List.map (SharedCall.mapEnd change)))).run
        schedule = stepwise.mapEnd change) ∧
    (∃ coarse, coarse.Sublist schedule ∧
      stepwise.visited = (System.ofPrograms start programs).run coarse) ∧
    (stepwise.visit? = none → ∀ number thread call,
      stepwise.system.threads[number]? = some thread → thread.stage = .entered call →
        ∃ steps, stepwise.Releases number steps (shared.perform call)) ∧
    (∀ key entry, Cache.entry? shared.guarded key = some entry →
      ∀ closure : Closure ν ε ρ,
        let outcome := shared.getMutWith key closure
        outcome.answer = some (closure.run entry.value).2 ∧ outcome.events = [] ∧
          shared.Accessed outcome.state entry (closure.run entry.value).1 ∧
          outcome.state.guarded.Coherent ∧
          ∀ {δ σ : Type} (other : Closure ν δ σ),
            (other.run entry.value).1 = (closure.run entry.value).1 →
              (shared.getMutWith key other).state = outcome.state) ∧
    (∀ key, shared.guarded.containsKey key = false → ∀ closure : Closure ν ε ρ,
      shared.getMutWith key closure =
          .silent none { shared with guarded := shared.guarded.record .recordMiss } ∧
        ∀ number, stepwise.visit? = none →
          stepwise.system.closure? number = some (key, closure) →
            (stepwise.step number).visit? = none) ∧
    ∀ key (result : ν → Except ε ρ),
      shared.getWith key result = shared.getMutWith key (.reading result) ∧
        (shared.getWith key result).state = (shared.get key).state := by
  intro start stepwise shared
  have changes : ReflTransGen Cache.Change (.ofConfig config.cacheConfig) shared.guarded :=
    Stepwise.changes_run .refl schedule
  have sound : stepwise.Sound := (Stepwise.sound_ofPrograms start programs).run schedule
  obtain ⟨listing, lists, _⟩ := Cache.exists_lists_of_changes_ofConfig changes
  refine ⟨Cache.coherent_of_changes changes, fun change => ?_, ?_, ?_, ?_, ?_, ?_⟩
  · rw [Stepwise.ofPrograms_mapEnd]
    exact Stepwise.run_mapEnd change _ schedule
  · exact (Stepwise.sound_ofPrograms start programs).exists_visited_run schedule
  · exact fun still _ _ _ found stage => sound.exists_releases still found stage
  · intro key entry present closure outcome
    obtain ⟨slot, found, held⟩ := Option.bind_eq_some_iff.mp present
    have member := lists.mem_iff.mpr held
    have coherent : outcome.state.guarded.Coherent :=
      Cache.coherent_of_changes (changes.trans (SharedCache.changes_getMutWith lists key closure))
    have worked : outcome = _ := SharedCache.getMutWith_of_some lists found member closure
    rw [worked] at coherent ⊢
    refine ⟨rfl, rfl, SharedCache.accessed_of_lists lists member _, coherent,
      fun other same => ?_⟩
    rw [SharedCache.getMutWith_of_some lists found member other, same]
    rfl
  · intro key absent closure
    have missing : shared.guarded.index[key]? = none := by
      rw [Cache.containsKey_eq_isSome] at absent
      exact Option.isNone_iff_eq_none.mp (Option.isSome_eq_false_iff.mp absent)
    exact ⟨SharedCache.getMutWith_of_none missing closure,
      fun _ => Stepwise.visit?_step_of_none missing⟩
  · exact fun key result => ⟨shared.getWith_eq key result, rfl⟩

/-- Writes two values and fails. -/
def failing : Closure Nat Unit Unit := .write 11 (.write 12 (.finish (.error ())))

/-- Room for two entries and two threads. -/
def narrowConfig : SharedConfig := ⟨.ofCapacity ⟨2, Nat.two_pos⟩, 2⟩

/-- The closure of one thread fails, and another thread reads what it leaves. -/
def failingPrograms : List (List (SharedCall Nat Nat Unit Unit)) :=
  [[.put 1 10, .put 2 20, .getMutWith 1 failing], [.get 1]]

/-- The threads after some steps of the first. -/
def besideFailing (steps : Nat) : Stepwise .lfru Nat Nat Unit Unit :=
  (Stepwise.ofPrograms (.ofConfig narrowConfig) failingPrograms).run (List.replicate steps 0)

/-- After eight steps the first thread has stored two entries. -/
theorem entry?_besideFailing :
    Cache.entry? (besideFailing 8).system.shared.guarded 1 = some ⟨1, 10, ⟨1⟩⟩ := by
  let stored : List (Call Nat Nat Unit Unit) := [.put 1 10, .put 2 20]
  have start : (Cache.ofConfig narrowConfig.cacheConfig : Cache .lfru Nat Nat).Represents _ :=
    Cache.represents_ofConfig _
  exact ((start.run stored).state.entry?_eq 1).trans rfl

/-- The closure that fails leaves the second access to its entry and its second value, as one
that writes this value and finishes does, and the lock is given back. -/
theorem run_closures_complete_failing :
    ((besideFailing 8).system.shared.getMutWith 1 failing).answer = some (.error ()) ∧
      (besideFailing 8).system.shared.Accessed
        ((besideFailing 8).system.shared.getMutWith 1 failing).state ⟨1, 10, ⟨1⟩⟩ 12 ∧
      ((besideFailing 8).system.shared.getMutWith 1
        (.write 12 (.finish (.ok ())) : Closure Nat Unit Unit)).state =
          ((besideFailing 8).system.shared.getMutWith 1 failing).state ∧
      ∃ steps, (besideFailing 9).Releases 0 steps
        ((besideFailing 9).system.shared.perform (.getMutWith 1 failing)) := by
  obtain ⟨_, _, _, _, present, _⟩ :=
    run_closures_complete .lfru narrowConfig failingPrograms (List.replicate 8 0)
  obtain ⟨_, _, _, entered, _⟩ :=
    run_closures_complete .lfru narrowConfig failingPrograms (List.replicate 9 0)
  obtain ⟨answer, _, accessed, _, same⟩ := present 1 _ entry?_besideFailing failing
  exact ⟨answer, accessed, same (.write 12 (.finish (.ok ()))) rfl, entered rfl 0 _ _ rfl rfl⟩

end EvictionCache
