import EvictionCache.Proofs.Cache.Agreement
import EvictionCache.Shared.Call

/-!
# A shared cache as a cache of one owner

Every call on a shared cache does to the guarded cache what the same request does to a cache of
one owner that agrees with it: the lock adds nothing and drops nothing. The capacity alone is read
beside the guarded cache, from a copy that is never wrong.
-/
namespace EvictionCache

variable {policy : Policy} {κ ν ε ρ α : Type} [BEq κ] [Hashable κ]

/-- A shared cache and a cache of one owner that agrees with the guarded one. -/
structure SharedCache.Guards (shared : SharedCache policy κ ν) (cache : Cache policy κ ν) :
    Prop where
  /-- The guarded cache agrees. -/
  agrees : shared.guarded.Agrees cache
  /-- The copy of the capacity is right. -/
  limit : shared.limit = cache.config.capacity

namespace SharedCache

/-- No call changes the copy of the capacity. -/
theorem limit_perform (shared : SharedCache policy κ ν) (call : SharedCall κ ν ε ρ) :
    (shared.perform call).state.limit = shared.limit := by
  cases call <;> rfl

namespace Guards

variable {shared : SharedCache policy κ ν} {cache : Cache policy κ ν}

/-- Working under the lock does what working on the other cache does. -/
theorem locked (guards : shared.Guards cache)
    (work : Cache policy κ ν → Outcome (Cache policy κ ν) α)
    (matching : Outcome.Matches Cache.Agrees (work shared.guarded) (work cache))
    (kept : (work cache).state.config = cache.config) :
    Outcome.Matches Guards (shared.locked work) (work cache) :=
  ⟨matching.answer, ⟨matching.state, kept ▸ guards.limit⟩, matching.events⟩

variable [EquivBEq κ] [LawfulHashable κ]

/-- Every call does what the same request to the other cache does. -/
theorem perform [BEq ν] (guards : shared.Guards cache) (call : SharedCall κ ν ε ρ) :
    Outcome.Matches Guards (shared.perform call) (cache.serve call.alone) := by
  have matching := guards.agrees.serve call.alone
  have kept := cache.config_serve call.alone
  cases call with
  | capacity =>
    exact .silent guards (congrArg (fun limit => Reply.number limit.entries) guards.limit)
  | _ => exact guards.locked (Cache.serve · _) matching kept

/-- Every run does what the same requests do to the other cache. -/
theorem run [BEq ν] (guards : shared.Guards cache) (calls : List (SharedCall κ ν ε ρ)) :
    Outcome.Matches Guards (shared.run calls) (cache.serveAll (calls.map SharedCall.alone)) := by
  induction calls generalizing shared cache with
  | nil => exact .silent guards rfl
  | cons call rest ih =>
    exact (guards.perform call).andThen fun after guards => (ih guards).map _

end Guards

/-- An empty shared cache guards an empty cache of its capacity, whatever the hints and the
number of threads expected. -/
theorem guards_ofConfig [EquivBEq κ] [LawfulHashable κ] (config : SharedConfig) :
    (ofConfig config : SharedCache policy κ ν).Guards (.ofCapacity config.base.capacity) :=
  ⟨.ofConfig rfl, rfl⟩

end SharedCache

end EvictionCache
