import EvictionCache.Metrics.Core

/-!
# Frequency metrics

Policies that count accesses keep a few figures about the counts themselves: the ranking policy
the highest count it has seen an access reach, the bucket policy the present number of buckets,
and both the number of increments.
-/
namespace EvictionCache

/-- Figures about counts kept by a ranking. The increments are exact while there are fewer than
`2 ^ 64` of them, as with `CoreMetrics`; the maximum is bounded as the counts are. -/
structure RankedUsage where
  /-- The highest count reached by an access. -/
  maxFrequency : Nat
  /-- Number of accesses to present entries. -/
  increments : Nat
deriving DecidableEq

namespace RankedUsage

/-- No access yet. -/
def fresh : RankedUsage := ⟨0, 0⟩

/-- An access brought an entry to a count. -/
def recordIncrement (usage : RankedUsage) (frequency : Nat) : RankedUsage :=
  ⟨max usage.maxFrequency frequency, usage.increments + 1⟩

/-- The higher maximum and the sum of the increments. -/
def merge (left right : RankedUsage) : RankedUsage :=
  ⟨max left.maxFrequency right.maxFrequency, left.increments + right.increments⟩

/-- Increments per lookup that found its key. -/
def averageFrequency (usage : RankedUsage) (core : CoreMetrics) : Float :=
  rate usage.increments core.hits

/-- The figures by name. -/
def fields (usage : RankedUsage) : List (String × Nat) := [
  ("max_frequency", usage.maxFrequency),
  ("total_frequency_increments", usage.increments)]

end RankedUsage

/-- Figures about counts kept by buckets, exact while there are fewer than `2 ^ 64` increments, as
with `CoreMetrics`. -/
structure BucketUsage where
  /-- Number of accesses to present entries. -/
  increments : Nat
  /-- Number of buckets with entries, when last looked at. -/
  activeBuckets : Nat
deriving DecidableEq

namespace BucketUsage

/-- No access and no bucket yet. -/
def fresh : BucketUsage := ⟨0, 0⟩

/-- One more access to a present entry. -/
def recordIncrement (usage : BucketUsage) : BucketUsage :=
  { usage with increments := usage.increments + 1 }

/-- Takes down the present number of buckets. -/
def observe (usage : BucketUsage) (buckets : Nat) : BucketUsage :=
  { usage with activeBuckets := buckets }

/-- The sums of both figures. -/
def merge (left right : BucketUsage) : BucketUsage :=
  ⟨left.increments + right.increments, left.activeBuckets + right.activeBuckets⟩

/-- The figures by name. -/
def fields (usage : BucketUsage) : List (String × Nat) := [
  ("total_frequency_increments", usage.increments),
  ("active_frequency_buckets", usage.activeBuckets)]

end BucketUsage

end EvictionCache
