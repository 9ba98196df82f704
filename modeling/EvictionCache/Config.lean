import EvictionCache.ConfigError

/-!
# Cache configurations

A configuration fixes the capacity of a cache, which no operation ever exceeds, and gives two
hints for sizing its index: how many entries to expect at first and how full the index may get.
A shared cache adds the number of threads it expects, a further hint. Hints are validated but
never change what a cache answers.
-/
namespace EvictionCache

/-- The greatest number of entries of a cache; a cache holds at least one. -/
structure Capacity where
  /-- Number of entries. -/
  entries : Nat
  /-- At least one entry fits. -/
  positive : 0 < entries
deriving DecidableEq

/-- A number of entries as a capacity, unless it is zero. -/
def Capacity.ofNat? (entries : Nat) : Option Capacity :=
  if positive : 0 < entries then some ⟨entries, positive⟩ else none

/-- Entries expected at first, unless told otherwise. -/
def defaultInitialCapacity : Nat := 16

/-- Filling of the index, unless told otherwise. -/
def defaultLoadFactor : Binary32 := .threeQuarters

/-- Threads expected, unless told otherwise. -/
def defaultConcurrencyLevel : Nat := 1

/-- The configuration of one cache. -/
structure CacheConfig where
  /-- The greatest number of entries. -/
  capacity : Capacity
  /-- Entries expected at first. -/
  initialCapacity : Nat
  /-- The filling at which the index grows. -/
  loadFactor : Binary32
deriving BEq

namespace CacheConfig

/-- A capacity with the default hints. -/
def ofCapacity (capacity : Capacity) : CacheConfig :=
  ⟨capacity, defaultInitialCapacity, defaultLoadFactor⟩

/-- A number of entries with the default hints; zero entries are rejected. -/
def ofEntries (entries : Nat) : Except ConfigError CacheConfig :=
  match Capacity.ofNat? entries with
  | some capacity => .ok (ofCapacity capacity)
  | none => .error .zeroCapacity

/-- The configuration with other hints. -/
def withHints (config : CacheConfig) (initialCapacity : Nat) (loadFactor : Binary32) :
    CacheConfig :=
  { config with initialCapacity, loadFactor }

/-- A load factor must be finite, above zero and at most one. -/
def validate (config : CacheConfig) : Except ConfigError Unit :=
  if !config.loadFactor.isFinite || config.loadFactor.atMost .zero
      || Binary32.one.below config.loadFactor then
    .error (.invalidLoadFactor config.loadFactor)
  else .ok ()

/-- The most index places reserved before the first entry arrives. The limit is this model's own:
the program that it models reserves as many places as it computes. -/
def reservationLimit : Nat := 4096

/-- Index places reserved at the start: room for the expected entries at the requested filling,
but never for more entries than fit and never above the limit. The division is exact here, while
the modelled program divides doubles, rounds the quotient down to a machine word and adds one
without a limit, which can overflow. How many places are reserved shows in no answer, event or
metric, and the model takes it that they can be had. -/
def reservation (config : CacheConfig) : Nat :=
  let expected := min config.initialCapacity config.capacity.entries
  let significand := config.loadFactor.significand
  let places := expected <<< (-config.loadFactor.scale).toNat / significand + 1
  if expected = 0 ∨ significand = 0 then 0 else min places reservationLimit

/-- The rendering of a configuration. -/
def rendering (config : CacheConfig) : Rendering :=
  .record "CacheConfig" [
    ("capacity", .number config.capacity.entries),
    ("initial_capacity", .number config.initialCapacity),
    ("load_factor", config.loadFactor.rendering)]

end CacheConfig

/-- The configuration of a cache that several threads share. -/
structure SharedConfig where
  /-- The configuration of the cache itself. -/
  base : CacheConfig
  /-- The number of threads expected to use it. -/
  concurrencyLevel : Nat
deriving BEq

namespace SharedConfig

/-- A capacity with the default hints. -/
def ofCapacity (capacity : Capacity) : SharedConfig :=
  ⟨.ofCapacity capacity, defaultConcurrencyLevel⟩

/-- The configuration with another number of expected threads. -/
def withConcurrencyLevel (config : SharedConfig) (level : Nat) : SharedConfig :=
  { config with concurrencyLevel := level }

/-- At least one thread must be expected; then the configuration of the cache is validated. -/
def validate (config : SharedConfig) : Except ConfigError Unit :=
  if config.concurrencyLevel = 0 then .error .zeroConcurrencyLevel else config.base.validate

/-- The configuration of the cache behind the lock: it expects at least one entry from each
thread, and keeps its whole capacity. -/
def cacheConfig (config : SharedConfig) : CacheConfig :=
  { config.base with
    initialCapacity := max config.base.initialCapacity config.concurrencyLevel }

/-- The rendering of a configuration. -/
def rendering (config : SharedConfig) : Rendering :=
  .record "ConcurrentCacheConfig" [
    ("base", config.base.rendering),
    ("concurrency_level", .number config.concurrencyLevel)]

end SharedConfig

end EvictionCache
