import EvictionCache.Frequency.Rank
import EvictionCache.Metrics.Usage

/-!
# Eviction policies

A policy decides which entry makes room for a new one. All three evict the first entry of an
order that they keep: least recently used first; or least frequently used first, ties going to
the entry stored first; or least frequently used first, ties going to the entry used least
recently. A policy fixes what each entry carries and which figures are kept about the counts.
-/
namespace EvictionCache

/-- How the entry to be evicted is chosen. -/
inductive Policy where
  /-- Least recently used. -/
  | lru
  /-- Least frequently used, then first stored. -/
  | lfu
  /-- Least frequently used, then least recently used. -/
  | lfru
deriving DecidableEq

namespace Policy

/-- The name of a policy in running text. -/
def label : Policy → String
  | lru => "lru"
  | lfu => "lfu"
  | lfru => "lfru"

/-- The name of a policy in reports. -/
def algorithmName : Policy → String
  | lru => "LRU"
  | lfu => "LFU"
  | lfru => "LFRU"

/-- The name of a policy inside the name of a rendered record. -/
def recordLabel : Policy → String
  | lru => "Lru"
  | lfu => "Lfu"
  | lfru => "Lfru"

/-- What an entry carries under a policy. -/
abbrev Metadata : Policy → Type
  | lru => Unit
  | lfu => Rank
  | lfru => AccessCount

/-- The access count of an entry, under the policies that keep one. -/
def frequency? : (policy : Policy) → policy.Metadata → Option Nat
  | lru, _ => none
  | lfu, rank => some rank.frequency
  | lfru, count => some count.frequency

/-- The rendering of what an entry carries. -/
def metadataRendering : (policy : Policy) → policy.Metadata → Rendering
  | lru, _ => .atom "()"
  | lfu, rank =>
    .record "LfuMeta" [("frequency", .number rank.frequency), ("sequence", .number rank.sequence)]
  | lfru, count => .record "LfruMeta" [("frequency", .number count.frequency)]

/-- The figures kept about access counts. -/
abbrev Usage : Policy → Type
  | lru => Unit
  | lfu => RankedUsage
  | lfru => BucketUsage

instance : (policy : Policy) → DecidableEq policy.Usage
  | lru => inferInstanceAs (DecidableEq Unit)
  | lfu => inferInstanceAs (DecidableEq RankedUsage)
  | lfru => inferInstanceAs (DecidableEq BucketUsage)

/-- The figures before any access. -/
def freshUsage : (policy : Policy) → policy.Usage
  | lru => ()
  | lfu => .fresh
  | lfru => .fresh

/-- The figures of two caches taken together. -/
def mergeUsage : (policy : Policy) → policy.Usage → policy.Usage → policy.Usage
  | lru, _, _ => ()
  | lfu, left, right => left.merge right
  | lfru, left, right => left.merge right

/-- The figures by name. -/
def usageFields : (policy : Policy) → policy.Usage → List (String × Nat)
  | lru, _ => []
  | lfu, usage => usage.fields
  | lfru, usage => usage.fields

end Policy

end EvictionCache
