import EvictionCache.Cache.Bounded
import EvictionCache.Cache.Call

/-!
# Shared caches

A shared cache is one cache behind one lock. Every operation takes the lock, works on the cache
inside and gives the lock back, so operations of several threads take effect one after another.
The capacity belongs to the whole cache and, like the expected number of threads, is fixed at
construction and read without the lock. The expected number of threads sizes the index and
decides nothing.
-/
namespace EvictionCache

/-- A cache behind a lock. -/
structure SharedCache (policy : Policy) (κ ν : Type) [BEq κ] [Hashable κ] where
  /-- The cache that the lock guards. -/
  guarded : Cache policy κ ν
  /-- The greatest number of entries. -/
  limit : Capacity
  /-- The number of threads expected. -/
  concurrencyLevel : Nat

namespace SharedCache

variable {policy : Policy} {κ ν ε ρ α : Type} [BEq κ] [Hashable κ]

/-- An empty shared cache; the configuration is taken as it is. -/
def ofConfig (config : SharedConfig) : SharedCache policy κ ν where
  guarded := .ofConfig config.cacheConfig
  limit := config.base.capacity
  concurrencyLevel := config.concurrencyLevel

/-- An empty shared cache of a capacity. -/
def ofCapacity (capacity : Capacity) : SharedCache policy κ ν := ofConfig (.ofCapacity capacity)

/-- An empty shared cache for a number of entries, if that is not zero. -/
def ofEntries (entries : Nat) : Except ConfigError (Outcome (SharedCache policy κ ν) Unit) :=
  match Capacity.ofNat? entries with
  | some capacity => .ok (.silent () (ofCapacity capacity))
  | none => .error .zeroCapacity

/-- An empty shared cache, if its configuration is valid. -/
def create (config : SharedConfig) :
    Except ConfigError (Outcome (SharedCache policy κ ν) Unit) := do
  config.validate
  return ⟨(), ofConfig config,
    [.sharedCacheCreated policy config.base.capacity.entries config.concurrencyLevel]⟩

/-- An empty shared cache for a number of entries, with hints and a number of expected threads, if
they are valid. -/
def build (entries initialCapacity : Nat) (loadFactor : Binary32) (concurrencyLevel : Nat) :
    Except ConfigError (Outcome (SharedCache policy κ ν) Unit) := do
  let base := (← CacheConfig.ofEntries entries).withHints initialCapacity loadFactor
  create ⟨base, concurrencyLevel⟩

/-- Works on the guarded cache while holding the lock. -/
def locked (shared : SharedCache policy κ ν)
    (work : Cache policy κ ν → Outcome (Cache policy κ ν) α) :
    Outcome (SharedCache policy κ ν) α :=
  (work shared.guarded).mapState fun guarded => { shared with guarded }

/-- The greatest number of entries. -/
def capacity (shared : SharedCache policy κ ν) : Nat := shared.limit.entries

/-- Number of entries. -/
def size (shared : SharedCache policy κ ν) : Nat := shared.guarded.size

/-- Whether there are no entries. -/
def isEmpty (shared : SharedCache policy κ ν) : Bool := shared.guarded.isEmpty

/-- The value of a key. Counts as an access. -/
def get (shared : SharedCache policy κ ν) (key : κ) :
    Outcome (SharedCache policy κ ν) (Option ν) :=
  shared.locked (·.get key)

/-- Reads the value of a key under the lock. Counts as an access, also if the reading fails. -/
def getWith (shared : SharedCache policy κ ν) (key : κ) (result : ν → Except ε ρ) :
    Outcome (SharedCache policy κ ν) (Option (Except ε ρ)) :=
  (shared.locked (·.get key)).map (Option.map result)

/-- Works on the value of a key under the lock. Counts as an access, also if the closure
fails. -/
def getMutWith (shared : SharedCache policy κ ν) (key : κ) (closure : Closure ν ε ρ) :
    Outcome (SharedCache policy κ ν) (Option (Except ε ρ)) :=
  shared.locked (·.visit key closure.run)

/-- The value of a key. Not an access. -/
def peek (shared : SharedCache policy κ ν) (key : κ) : Option ν := shared.guarded.peek key

/-- The access count of a key, if the policy keeps one. Not an access. -/
def frequency? (shared : SharedCache policy κ ν) (key : κ) : Option Nat :=
  shared.guarded.frequency? key

/-- Whether a key is present. Not an access. -/
def containsKey (shared : SharedCache policy κ ν) (key : κ) : Bool :=
  shared.guarded.containsKey key

/-- Stores a value under a key and returns the value it replaced. -/
def put (shared : SharedCache policy κ ν) (key : κ) (value : ν) :
    Outcome (SharedCache policy κ ν) (Option ν) :=
  shared.locked (·.put key value)

/-- Stores a value under a key and returns the pair that left the cache. -/
def push (shared : SharedCache policy κ ν) (key : κ) (value : ν) :
    Outcome (SharedCache policy κ ν) (Option (κ × ν)) :=
  shared.locked (·.push key value)

/-- Removes a key and returns its value. -/
def remove (shared : SharedCache policy κ ν) (key : κ) :
    Outcome (SharedCache policy κ ν) (Option ν) :=
  shared.locked (·.remove key)

/-- Removes every entry. -/
def clear (shared : SharedCache policy κ ν) : Outcome (SharedCache policy κ ν) Unit :=
  shared.locked Cache.clear

/-- A copy of the metrics. -/
def metrics (shared : SharedCache policy κ ν) : Metrics policy := shared.guarded.metrics

/-- The name under which a shared cache of a policy is reported. -/
def algorithmName (_ : SharedCache policy κ ν) : String := "Concurrent" ++ policy.algorithmName

/-- The rendering of a shared cache. -/
def rendering (shared : SharedCache policy κ ν) : Rendering :=
  .record ("Concurrent" ++ policy.recordLabel ++ "Cache") [
    ("capacity", .number shared.capacity),
    ("concurrency_level", .number shared.concurrencyLevel),
    ("len", .number shared.size)]

instance : BoundedMap (SharedCache policy κ ν) κ ν where
  get := get
  put := put
  remove := remove
  containsKey := containsKey
  size := size
  capacity := capacity
  clear := clear

end SharedCache

end EvictionCache
