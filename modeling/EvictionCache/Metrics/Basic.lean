import EvictionCache.Policy

/-!
# Metrics of a cache

The metrics of a cache are the core counts together with the figures of its policy.
-/
namespace EvictionCache

/-- Everything that a cache counts. -/
structure Metrics (policy : Policy) where
  /-- Counts kept under every policy. -/
  core : CoreMetrics
  /-- Figures about access counts. -/
  usage : policy.Usage
deriving DecidableEq

namespace Metrics

variable {policy : Policy}

/-- Nothing has happened yet. -/
def fresh : Metrics policy := ⟨.fresh, policy.freshUsage⟩

/-- Changes the core counts. -/
def mapCore (metrics : Metrics policy) (change : CoreMetrics → CoreMetrics) : Metrics policy :=
  { metrics with core := change metrics.core }

/-- The metrics of two caches taken together. -/
def merge (left right : Metrics policy) : Metrics policy :=
  ⟨left.core.merge right.core, policy.mergeUsage left.usage right.usage⟩

/-- All counts and figures by name. -/
def fields (metrics : Metrics policy) : List (String × Nat) :=
  metrics.core.fields ++ policy.usageFields metrics.usage

/-- The report of the core counts, extended by the figures of the policy. -/
def report (metrics : Metrics policy) : Report :=
  let figures := metrics.core.report.insertMany <|
    (policy.usageFields metrics.usage).map fun field => (field.1, Float.ofNat field.2)
  match policy, metrics with
  | .lfu, metrics =>
    figures.insert "average_frequency" (metrics.usage.averageFrequency metrics.core)
  | .lru, _ | .lfru, _ => figures

/-- The rendering of the metrics. -/
def rendering (metrics : Metrics policy) : Rendering :=
  .record (policy.recordLabel ++ "CacheMetrics") <|
    ("core", metrics.core.rendering) ::
      (policy.usageFields metrics.usage).map fun field => (field.1, .number field.2)

end Metrics

end EvictionCache
