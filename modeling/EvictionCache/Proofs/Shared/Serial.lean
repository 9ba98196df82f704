import EvictionCache.Proofs.Queue.Ledger
import EvictionCache.Proofs.Shared.Replay
import EvictionCache.Workload.Key
import Mathlib

/-!
# Every schedule is serial

Whatever the schedule, threads on a shared cache get the answers that a cache of one owner gives
to their calls one after another, in the order in which they got hold of the cache, and what is
left is what that cache is left with. Neither the hints nor the number of threads expected make
a difference to any of it.
-/
namespace EvictionCache

variable {policy : Policy} {κ ν ε ρ : Type} [BEq κ] [Hashable κ]

/-- Shared caches that guard one and the same cache of one owner do the same at every call. -/
theorem SharedCache.perform_matches [BEq ν] [EquivBEq κ] [LawfulHashable κ]
    {left right : SharedCache policy κ ν}
    (guards : ∃ cache, left.Guards cache ∧ right.Guards cache) (call : SharedCall κ ν ε ρ) :
    Outcome.Matches (fun one other => ∃ cache, one.Guards cache ∧ other.Guards cache)
      (left.perform call) (right.perform call) := by
  obtain ⟨cache, one, other⟩ := guards
  have first := one.perform call
  have second := other.perform call
  exact ⟨first.answer.trans second.answer.symm, ⟨_, first.state, second.state⟩,
    first.events.trans second.events.symm⟩

namespace System

/-- Systems that differ in the hints of their caches only. -/
structure Twins (left right : System policy κ ν ε ρ) : Prop where
  /-- Both guard a cache of one owner. -/
  guards : ∃ cache, left.shared.Guards cache ∧ right.shared.Guards cache
  /-- The same thread holds the lock. -/
  holder : left.holder = right.holder
  /-- All threads are the same. -/
  threads : left.threads = right.threads
  /-- The turns were the same. -/
  taken : left.taken = right.taken
  /-- The events were the same. -/
  log : left.log = right.log

namespace Twins

variable [BEq ν] [EquivBEq κ] [LawfulHashable κ] {left right : System policy κ ν ε ρ}

/-- A thread of twins begins the same call, or waits in both. -/
theorem enter (twins : left.Twins right) (number : Nat) (thread : Thread κ ν ε ρ) :
    (left.enter number thread).Twins (right.enter number thread) := by
  obtain ⟨one, holder, threads, taken, log⟩ := left
  obtain ⟨other, _, _, _, _⟩ := right
  obtain ⟨guards, rfl, rfl, rfl, rfl⟩ := twins
  rw [System.enter, System.enter]
  cases thread.program with
  | nil => exact ⟨guards, rfl, rfl, rfl, rfl⟩
  | cons call rest =>
    dsimp only
    split
    · split
      · exact ⟨guards, rfl, rfl, rfl, rfl⟩
      · exact ⟨guards, rfl, rfl, rfl, rfl⟩
    · rw [(SharedCache.perform_matches guards call).answer]
      exact ⟨guards, rfl, rfl, rfl, rfl⟩

/-- A step does the same to twins. -/
theorem step (twins : left.Twins right) (number : Nat) :
    (left.step number).Twins (right.step number) := by
  have begun := twins.enter number
  obtain ⟨one, holder, threads, taken, log⟩ := left
  obtain ⟨other, _, _, _, _⟩ := right
  obtain ⟨guards, rfl, rfl, rfl, rfl⟩ := twins
  rw [System.step, System.step]
  dsimp only
  cases threads[number]? with
  | none => exact ⟨guards, rfl, rfl, rfl, rfl⟩
  | some thread =>
    dsimp only
    cases thread.stage with
    | idle => exact begun thread
    | entered call =>
      have matching := SharedCache.perform_matches guards call
      dsimp only
      rw [matching.answer, matching.events]
      exact ⟨matching.state, rfl, rfl, rfl, rfl⟩
    | worked reply | leaving reply => exact ⟨guards, rfl, rfl, rfl, rfl⟩

/-- A schedule does the same to twins. -/
theorem run (twins : left.Twins right) (schedule : List Nat) :
    (left.run schedule).Twins (right.run schedule) := by
  induction schedule generalizing left right with
  | nil => exact twins
  | cons number rest ih => exact ih (twins.step number)

end Twins

variable [EquivBEq κ] [LawfulHashable κ]

/-- Systems of one capacity that begin with the same programs are twins. -/
theorem twins_ofPrograms {config other : SharedConfig}
    (same : config.base.capacity = other.base.capacity)
    (programs : List (List (SharedCall κ ν ε ρ))) :
    (ofPrograms (.ofConfig config : SharedCache policy κ ν) programs).Twins
      (ofPrograms (.ofConfig other) programs) := by
  refine ⟨⟨_, SharedCache.guards_ofConfig config, ?_⟩, rfl, rfl, rfl, rfl⟩
  rw [same]
  exact SharedCache.guards_ofConfig other

variable [BEq ν]

/-- Threads that share a cache, under any configuration and any schedule, begin their calls in
the order of their programs; each gets the answers that a cache of one owner gives to the same
calls one after another, in the order in which they got hold of the cache. That goes for the
metrics, too: a thread that asks for them is told what that cache has counted when it is asked.
Whenever the lock is free the shared cache has the entries, order, counts and metrics of that
cache, the same events are in the log, and no more entries are present than fit; after the last
return the lock is free. No configuration of the same capacity makes any thread see anything
else. -/
theorem run_eq_serial (policy : Policy) (config : SharedConfig)
    (programs : List (List (SharedCall κ ν ε ρ))) (schedule : List Nat) :
    let system :=
      (ofPrograms (.ofConfig config : SharedCache policy κ ν) programs).run schedule
    let serial := (Cache.ofCapacity config.base.capacity : Cache policy κ ν).serveAll
      (system.taken.map fun turn => turn.2.alone)
    (∀ number program, programs[number]? = some program →
      ∃ thread, system.threads[number]? = some thread ∧
        callsOf number system.taken ++ thread.program = program ∧
        thread.replies <+: repliesTo number system.taken serial.answer ∧
        (thread.stage = .idle → thread.replies = repliesTo number system.taken serial.answer)) ∧
    (∀ turn ∈ system.taken, turn.1 < programs.length) ∧
    (system.holder = none →
      system.shared.guarded.Agrees serial.state ∧ system.log = serial.events ∧
        system.shared.size ≤ system.shared.capacity) ∧
    (system.Finished → system.holder = none) ∧
    ∀ other : SharedConfig, other.base.capacity = config.base.capacity →
      ((ofPrograms (.ofConfig other : SharedCache policy κ ν) programs).run schedule).threads =
        system.threads := by
  intro system serial
  have replays : system.Replays (.ofCapacity config.base.capacity) programs :=
    (replays_ofPrograms config programs).run schedule
  refine ⟨fun number program planned => replays.exists_thread planned, replays.turns,
    fun free => ?_, replays.holder_of_finished,
    fun other same => ((twins_ofPrograms same programs).run schedule).threads⟩
  obtain ⟨guards, events⟩ := replays.of_free free
  refine ⟨guards.agrees, events, ?_⟩
  have represents : serial.state.Represents _ := (Cache.represents_ofConfig _).serveAll _
  rw [SharedCache.size, SharedCache.capacity, guards.agrees.size_eq, guards.limit]
  exact represents.size_le

/-- Two threads whose calls overlap, on a cache with room for two entries. The second asks for the
metrics in the end. -/
def twoThreads (level : Nat) : System .lru FoldedKey Nat Unit Unit :=
  (ofPrograms (.ofConfig ⟨.ofCapacity ⟨2, by decide⟩, level⟩)
    [[.put ⟨.text "a"⟩ 1, .get ⟨.text "A"⟩],
      [.put ⟨.text "b"⟩ 2, .push ⟨.text "c"⟩ 3, .metrics]]).run
    [0, 1, 0, 0, 1, 0, 1, 1, 1, 0, 1, 0, 0, 0, 1, 1, 1, 1, 1, 1, 1, 1]

/-- The entry that the first thread read under another spelling stays, and the second thread is
handed the other one, however many threads were expected. Asking for the metrics, it is told of
one request, which was a hit of the other thread, of three insertions and of one eviction. -/
theorem run_eq_serial_two_threads :
    (∃ thread, (twoThreads 8).threads[1]? = some thread ∧
      thread.replies = [.value none, .pair (some (⟨.text "b"⟩, 2)),
        .metrics (⟨⟨1, 1, 3, 0, 1, 0⟩, ()⟩ : Metrics .lru)]) ∧
    (twoThreads 8).shared.size ≤ (twoThreads 8).shared.capacity ∧
    (twoThreads 1).threads = (twoThreads 8).threads := by
  have order : (twoThreads 8).taken = [(0, .put ⟨.text "a"⟩ 1), (1, .put ⟨.text "b"⟩ 2),
      (0, .get ⟨.text "A"⟩), (1, .push ⟨.text "c"⟩ 3), (1, .metrics)] := rfl
  have free : (twoThreads 8).holder = none := rfl
  have stage : (twoThreads 8).threads[1]?.map Thread.stage = some .idle := rfl
  obtain ⟨threads, _, quiet, _, unseen⟩ :=
    run_eq_serial .lru ⟨.ofCapacity ⟨2, by decide⟩, 8⟩
      ([[.put ⟨.text "a"⟩ 1, .get ⟨.text "A"⟩],
        [.put ⟨.text "b"⟩ 2, .push ⟨.text "c"⟩ 3, .metrics]] :
        List (List (SharedCall FoldedKey Nat Unit Unit)))
      [0, 1, 0, 0, 1, 0, 1, 1, 1, 0, 1, 0, 0, 0, 1, 1, 1, 1, 1, 1, 1, 1]
  obtain ⟨thread, found, _, _, replies⟩ := threads 1 _ rfl
  refine ⟨⟨thread, found, ?_⟩, (quiet free).2.2, unseen ⟨.ofCapacity ⟨2, by decide⟩, 1⟩ rfl⟩
  change (twoThreads 8).threads[1]? = some thread at found
  rw [found] at stage
  refine (replies (Option.some.inj stage)).trans ?_
  change repliesTo 1 (twoThreads 8).taken
    (Cache.serveAll _ ((twoThreads 8).taken.map fun turn => turn.2.alone)).answer = _
  rw [order, Cache.ofCapacity]
  exact (congrArg _ (Cache.answer_serveAll_run _ [] _)).trans (by cbv)

end System

end EvictionCache
