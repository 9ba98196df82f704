import EvictionCache.Rendering

/-!
# Cache entries

An entry is a key with its value and what the policy of its cache keeps about it. Storing a
value can displace a pair: either the old value of the same key, reported under the key that was
passed in, or another entry that had to make room, reported under the key it was stored with.
-/
namespace EvictionCache

/-- A stored key and value with the metadata of a policy. -/
structure Entry (κ ν μ : Type) where
  /-- The key that created the entry. -/
  key : κ
  /-- The current value. -/
  value : ν
  /-- What the policy keeps about the entry. -/
  metadata : μ
deriving DecidableEq

namespace Entry

variable {κ ν μ : Type}

/-- The key and the value. -/
def pair (entry : Entry κ ν μ) : κ × ν := (entry.key, entry.value)

/-- The entry with another value. -/
def withValue (entry : Entry κ ν μ) (value : ν) : Entry κ ν μ := { entry with value }

/-- The entry with other metadata. -/
def withMetadata (entry : Entry κ ν μ) (metadata : μ) : Entry κ ν μ := { entry with metadata }

/-- Replaces the value and returns the previous one. -/
def replaceValue (entry : Entry κ ν μ) (value : ν) : ν × Entry κ ν μ :=
  (entry.value, entry.withValue value)

/-- The rendering of an entry, given those of its parts. -/
def rendering (entry : Entry κ ν μ) (ofKey : κ → Rendering) (ofValue : ν → Rendering)
    (ofMetadata : μ → Rendering) : Rendering :=
  .record "CacheEntry" [
    ("key", ofKey entry.key),
    ("value", ofValue entry.value),
    ("metadata", ofMetadata entry.metadata)]

end Entry

/-- A pair that left the cache when another was stored. -/
inductive Displaced (κ ν : Type) where
  /-- The key was present: the key passed in, and the old value. -/
  | replaced (key : κ) (value : ν)
  /-- The entry that made room: its own key and value. -/
  | evicted (key : κ) (value : ν)

namespace Displaced

variable {κ ν : Type}

/-- The old value of the key that was stored, if it was present. -/
def replacedValue? : Displaced κ ν → Option ν
  | replaced _ value => some value
  | evicted _ _ => none

/-- The pair itself. -/
def pair : Displaced κ ν → κ × ν
  | replaced key value | evicted key value => (key, value)

end Displaced

end EvictionCache
