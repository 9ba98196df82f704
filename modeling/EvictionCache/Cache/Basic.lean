import EvictionCache.Config
import EvictionCache.Event
import EvictionCache.Metrics.Basic
import EvictionCache.Store.Basic
import Std.Data.HashMap

/-!
# Caches

A cache finds the slot of a key through a hash index and keeps its entries in the store of its
policy. Lookups that count as an access, and replacing the value of a present key, touch the
entry in the store; a new key beyond the capacity first evicts the first entry in the order of
eviction. Keys need only an equality that the hash respects: two spellings of a key may be equal
without being the same, and the index and the entry both keep the spelling that was stored.

Operations that change a cache return an `Outcome`; those that only look return their answer.
-/
namespace EvictionCache

/-- A map of bounded size that evicts by a policy. -/
structure Cache (policy : Policy) (κ ν : Type) [BEq κ] [Hashable κ] where
  /-- Capacity and sizing hints. -/
  config : CacheConfig
  /-- The slot of each key. -/
  index : Std.HashMap κ SlotId
  /-- The entries in the order of eviction. -/
  store : policy.Store κ ν
  /-- What has happened so far. -/
  metrics : Metrics policy

namespace Cache

variable {policy : Policy} {κ ν : Type} [BEq κ] [Hashable κ]

/-- An empty cache; the configuration is taken as it is. -/
def ofConfig (config : CacheConfig) : Cache policy κ ν where
  config := config
  index := .emptyWithCapacity config.reservation
  store := policy.emptyStore
  metrics := .fresh

/-- An empty cache of a capacity. -/
def ofCapacity (capacity : Capacity) : Cache policy κ ν := ofConfig (.ofCapacity capacity)

/-- An empty cache, if its configuration is valid. -/
def create (config : CacheConfig) : Except ConfigError (Outcome (Cache policy κ ν) Unit) := do
  config.validate
  return ⟨(), ofConfig config, [.cacheCreated policy config.capacity.entries]⟩

/-- An empty cache for a number of entries, if that is not zero. -/
def ofEntries (entries : Nat) : Except ConfigError (Outcome (Cache policy κ ν) Unit) := do
  create (← CacheConfig.ofEntries entries)

/-- An empty cache for a number of entries and with hints, if they are valid. -/
def build (entries initialCapacity : Nat) (loadFactor : Binary32) :
    Except ConfigError (Outcome (Cache policy κ ν) Unit) := do
  create ((← CacheConfig.ofEntries entries).withHints initialCapacity loadFactor)

section Looking

/-- The greatest number of entries. -/
def capacity (cache : Cache policy κ ν) : Nat := cache.config.capacity.entries

/-- Number of entries. -/
def size (cache : Cache policy κ ν) : Nat := cache.index.size

/-- Whether there are no entries. -/
def isEmpty (cache : Cache policy κ ν) : Bool := cache.index.isEmpty

/-- The entry in a slot. -/
def entryAt? (cache : Cache policy κ ν) (slot : SlotId) : Option (Entry κ ν policy.Metadata) :=
  policy.entry? cache.store slot

/-- The entry of a key. Not an access. -/
def entry? (cache : Cache policy κ ν) (key : κ) : Option (Entry κ ν policy.Metadata) :=
  cache.index[key]?.bind cache.entryAt?

/-- The value of a key. Not an access. -/
def peek (cache : Cache policy κ ν) (key : κ) : Option ν := (cache.entry? key).map Entry.value

/-- The access count of a key, if the policy keeps one. Not an access. -/
def frequency? (cache : Cache policy κ ν) (key : κ) : Option Nat :=
  (cache.entry? key).bind fun entry => policy.frequency? entry.metadata

/-- Whether a key is present. Not an access. -/
def containsKey (cache : Cache policy κ ν) (key : κ) : Bool := cache.index.contains key

/-- All entries, in the order of eviction. -/
def entries (cache : Cache policy κ ν) : List (Entry κ ν policy.Metadata) :=
  policy.entries cache.store

/-- All pairs, in the order of eviction. -/
def toList (cache : Cache policy κ ν) : List (κ × ν) := cache.entries.map Entry.pair

/-- Whether any entry holds a value. Not an access. -/
def containsValue [BEq ν] (cache : Cache policy κ ν) (value : ν) : Bool :=
  cache.toList.any fun pair => pair.2 == value

/-- The pair that makes room for the next new key when the cache is full. -/
def candidate? (cache : Cache policy κ ν) : Option (κ × ν) :=
  ((policy.first? cache.store).bind cache.entryAt?).map Entry.pair

end Looking

section Accessing

/-- Changes the core counts. -/
def record (cache : Cache policy κ ν) (change : CoreMetrics → CoreMetrics) :
    Cache policy κ ν :=
  { cache with metrics := cache.metrics.mapCore change }

/-- Counts an access to the entry in a slot and gives it its new place in the order. -/
def touch (cache : Cache policy κ ν) (slot : SlotId) : Cache policy κ ν :=
  let store := policy.touch cache.store slot
  { cache with
    store := store
    metrics := { cache.metrics with usage := policy.recordAccess cache.metrics.usage store slot } }

/-- Replaces the value in a slot. -/
def setValue (cache : Cache policy κ ν) (slot : SlotId) (value : ν) : Cache policy κ ν :=
  { cache with store := policy.setValue cache.store slot value }

/-- Takes down the shape of the store after entries were added or removed. -/
def recordShape (cache : Cache policy κ ν) : Cache policy κ ν :=
  { cache with
    metrics := { cache.metrics with usage := policy.recordShape cache.metrics.usage cache.store } }

/-- Looks a key up as an access: a hit touches the entry, a miss is only counted. -/
def access (cache : Cache policy κ ν) (key : κ) :
    Option (SlotId × Entry κ ν policy.Metadata) × Cache policy κ ν :=
  match cache.index[key]? with
  | none => (none, cache.record .recordMiss)
  | some slot =>
    let cache := (cache.record .recordHit).touch slot
    ((cache.entryAt? slot).map (slot, ·), cache)

/-- The value of a key. Counts as an access. -/
def get (cache : Cache policy κ ν) (key : κ) : Outcome (Cache policy κ ν) (Option ν) :=
  let (found, cache) := cache.access key
  .silent (found.map fun hit => hit.2.value) cache

/-- Runs an action on the value of a key: it reads the value, leaves a new one in its place and
returns a result. Counts as an access; without the key the action is not run. -/
def visit {ρ : Type} (cache : Cache policy κ ν) (key : κ) (action : ν → ν × ρ) :
    Outcome (Cache policy κ ν) (Option ρ) :=
  match cache.access key with
  | (none, cache) => .silent none cache
  | (some (slot, entry), cache) =>
    let (value, result) := action entry.value
    .silent (some result) (cache.setValue slot value)

end Accessing

section Storing

/-- Takes the first entry in the order of eviction out of store and index, without counting
why. -/
def takeFirst (cache : Cache policy κ ν) :
    Option (Entry κ ν policy.Metadata) × Cache policy κ ν :=
  match policy.popFirst cache.store with
  | (none, store) => (none, { cache with store })
  | (some entry, store) =>
    (some entry, recordShape { cache with store, index := cache.index.erase entry.key })

/-- Evicts one entry if the cache is full. -/
def makeRoom (cache : Cache policy κ ν) :
    Outcome (Cache policy κ ν) (Option (Entry κ ν policy.Metadata)) :=
  if cache.capacity ≤ cache.size then
    match cache.takeFirst with
    | (none, cache) => .silent none cache
    | (some entry, cache) => ⟨some entry, cache.record .recordEviction, [.evicted policy]⟩
  else .silent none cache

/-- Adds an entry under an absent key. -/
def addEntry (cache : Cache policy κ ν) (key : κ) (value : ν) : Cache policy κ ν :=
  let (slot, store) := policy.add cache.store key value
  recordShape
    { cache.record .recordInsertion with store, index := cache.index.insert key slot }

/-- Replaces the value in the slot of a present key. Counts as an access. -/
def replace (cache : Cache policy κ ν) (slot : SlotId) (key : κ) (value : ν) :
    Outcome (Cache policy κ ν) (Option (Displaced κ ν)) :=
  let cache := (cache.record .recordUpdate).touch slot
  match cache.entryAt? slot with
  | none => .silent none cache
  | some entry => .silent (some (.replaced key entry.value)) (cache.setValue slot value)

/-- Stores a value under a key and returns what it displaced. -/
def insert (cache : Cache policy κ ν) (key : κ) (value : ν) :
    Outcome (Cache policy κ ν) (Option (Displaced κ ν)) :=
  match cache.index[key]? with
  | some slot => cache.replace slot key value
  | none =>
    cache.makeRoom.andThen fun evicted cache =>
      .silent (evicted.map fun entry => .evicted entry.key entry.value) (cache.addEntry key value)

/-- Stores a value under a key and returns the value it replaced. -/
def put (cache : Cache policy κ ν) (key : κ) (value : ν) :
    Outcome (Cache policy κ ν) (Option ν) :=
  (cache.insert key value).map fun displaced => displaced.bind Displaced.replacedValue?

/-- Stores a value under a key and returns the pair that left the cache. -/
def push (cache : Cache policy κ ν) (key : κ) (value : ν) :
    Outcome (Cache policy κ ν) (Option (κ × ν)) :=
  (cache.insert key value).map fun displaced => displaced.map Displaced.pair

/-- Stores pairs one after another. -/
def extend (cache : Cache policy κ ν) : List (κ × ν) → Outcome (Cache policy κ ν) Unit
  | [] => .silent () cache
  | pair :: rest => (cache.put pair.1 pair.2).andThen fun _ cache => cache.extend rest

end Storing

section Removing

/-- Removes a key and returns its pair under the stored spelling. -/
def removeEntry (cache : Cache policy κ ν) (key : κ) :
    Outcome (Cache policy κ ν) (Option (κ × ν)) :=
  match cache.index[key]? with
  | none => .silent none cache
  | some slot =>
    let index := cache.index.erase key
    match policy.remove cache.store slot with
    | (none, store) => .silent none { cache with index, store }
    | (some entry, store) =>
      .silent (some entry.pair)
        (recordShape { cache.record .recordRemoval with index, store })

/-- Removes a key and returns its value. -/
def remove (cache : Cache policy κ ν) (key : κ) : Outcome (Cache policy κ ν) (Option ν) :=
  (cache.removeEntry key).map fun pair => pair.map Prod.snd

/-- Removes and returns the first pair in the order of eviction, as a removal on request. -/
def pop (cache : Cache policy κ ν) : Outcome (Cache policy κ ν) (Option (κ × ν)) :=
  match cache.takeFirst with
  | (none, cache) => .silent none cache
  | (some entry, cache) => .silent (some entry.pair) (cache.record .recordRemoval)

/-- Removes every entry. Counts nothing, but leaves the number of entries in the log. -/
def clear (cache : Cache policy κ ν) : Outcome (Cache policy κ ν) Unit where
  answer := ()
  state :=
    recordShape { cache with index := ∅, store := policy.clearStore cache.store }
  events := [.clearing policy cache.size]

end Removing

/-- The rendering of a cache: its capacity and the size of its store. -/
def rendering (cache : Cache policy κ ν) : Rendering :=
  .record (policy.recordLabel ++ "Cache") [
    ("segment", .record (policy.recordLabel ++ "Segment") <|
      ("capacity", .number cache.capacity) ::
        (policy.summary cache.store).map fun figure => (figure.1, .number figure.2))]

/-- Up to `limit` pairs of a cache that evicts by recency, from the least recently used on, and
the number of pairs after them. -/
def oldest (cache : Cache .lru κ ν) (limit : Nat) : List (κ × ν) × Nat :=
  let (entries, rest) := cache.store.chain.walk.take cache.store.nodes limit
  (entries.map Entry.pair, rest.remaining)

end Cache

end EvictionCache
