import EvictionCache.Rendering
import Std.Data.TreeMap

/-!
# Core metrics

Every cache counts the same six kinds of event. Misses are not counted but follow from requests
and hits. A report gives each count, and the rates that follow from the counts, as a
floating-point number under a name; each count is rounded on its own before it is divided.
-/
namespace EvictionCache

/-- Named figures in the order of their names. -/
abbrev Report := Std.TreeMap String Float

/-- The quotient of two counts, each rounded first; zero if the divisor is zero. -/
def rate (part whole : Nat) : Float :=
  if 0 < whole then Float.ofNat part / Float.ofNat whole else 0

/-- Events counted by every cache. The counters are unbounded here and words of 64 bits in the
modelled program, so the model is exact for runs with fewer than `2 ^ 64` events of each kind. -/
structure CoreMetrics where
  /-- Lookups that count as an access. -/
  requests : Nat
  /-- Lookups that found their key. -/
  hits : Nat
  /-- Entries created. -/
  insertions : Nat
  /-- Values replaced under a present key. -/
  updates : Nat
  /-- Entries removed to make room. -/
  evictions : Nat
  /-- Entries removed on request. -/
  removals : Nat
deriving DecidableEq

namespace CoreMetrics

/-- Nothing has happened yet. -/
def fresh : CoreMetrics := ⟨0, 0, 0, 0, 0, 0⟩

/-- A lookup found its key. -/
def recordHit (metrics : CoreMetrics) : CoreMetrics :=
  { metrics with requests := metrics.requests + 1, hits := metrics.hits + 1 }

/-- A lookup did not find its key. -/
def recordMiss (metrics : CoreMetrics) : CoreMetrics :=
  { metrics with requests := metrics.requests + 1 }

/-- An entry was removed to make room. -/
def recordEviction (metrics : CoreMetrics) : CoreMetrics :=
  { metrics with evictions := metrics.evictions + 1 }

/-- An entry was created. -/
def recordInsertion (metrics : CoreMetrics) : CoreMetrics :=
  { metrics with insertions := metrics.insertions + 1 }

/-- The value of a present key was replaced. -/
def recordUpdate (metrics : CoreMetrics) : CoreMetrics :=
  { metrics with updates := metrics.updates + 1 }

/-- An entry was removed on request. -/
def recordRemoval (metrics : CoreMetrics) : CoreMetrics :=
  { metrics with removals := metrics.removals + 1 }

/-- Lookups that did not find their key. -/
def misses (metrics : CoreMetrics) : Nat := metrics.requests - metrics.hits

/-- The share of lookups that found their key. -/
def hitRate (metrics : CoreMetrics) : Float := rate metrics.hits metrics.requests

/-- The share of lookups that did not find their key. -/
def missRate (metrics : CoreMetrics) : Float := rate metrics.misses metrics.requests

/-- The sums of two sets of counts. -/
def merge (left right : CoreMetrics) : CoreMetrics where
  requests := left.requests + right.requests
  hits := left.hits + right.hits
  insertions := left.insertions + right.insertions
  updates := left.updates + right.updates
  evictions := left.evictions + right.evictions
  removals := left.removals + right.removals

/-- The counts by name. -/
def fields (metrics : CoreMetrics) : List (String × Nat) := [
  ("requests", metrics.requests),
  ("cache_hits", metrics.hits),
  ("insertions", metrics.insertions),
  ("updates", metrics.updates),
  ("evictions", metrics.evictions),
  ("removals", metrics.removals)]

/-- Counts and rates by name; evictions per lookup are reported only once there was a lookup. -/
def report (metrics : CoreMetrics) : Report :=
  let figures : Report :=
    .ofList (("cache_misses", metrics.misses) :: metrics.fields |>.map fun field =>
      (field.1, Float.ofNat field.2))
  let rates := (figures.insert "hit_rate" metrics.hitRate).insert "miss_rate" metrics.missRate
  if 0 < metrics.requests then
    rates.insert "eviction_rate" (rate metrics.evictions metrics.requests)
  else rates

/-- The rendering of the counts. -/
def rendering (metrics : CoreMetrics) : Rendering :=
  .record "CoreCacheMetrics" (metrics.fields.map fun field => (field.1, .number field.2))

end CoreMetrics

end EvictionCache
