import EvictionCache.Cache.Basic

/-!
# Caches as bounded maps

The contract that caches of every policy keep, shared or not: a map that never holds more than
its capacity. Code written against it works with any of them.
-/
namespace EvictionCache

/-- A map with a capacity. -/
class BoundedMap (σ : Type) (κ ν : outParam Type) where
  /-- The value of a key. Counts as an access. -/
  get : σ → κ → Outcome σ (Option ν)
  /-- Stores a value under a key and returns the value it replaced. Counts as an access if the
  key is present; a new key in a full map evicts exactly one entry first. -/
  put : σ → κ → ν → Outcome σ (Option ν)
  /-- Removes a key and returns its value. -/
  remove : σ → κ → Outcome σ (Option ν)
  /-- Whether a key is present. Not an access. -/
  containsKey : σ → κ → Bool
  /-- Number of entries. -/
  size : σ → Nat
  /-- The greatest number of entries. -/
  capacity : σ → Nat
  /-- Removes every entry. -/
  clear : σ → Outcome σ Unit

namespace BoundedMap

variable {σ κ ν : Type} [BoundedMap σ κ ν]

/-- Whether there are no entries. -/
def isEmpty (map : σ) : Bool := size map == 0

/-- Stores pairs in their order. -/
def putAll (map : σ) : List (κ × ν) → Outcome σ Unit
  | [] => .silent () map
  | pair :: rest => (put map pair.1 pair.2).andThen fun _ map => putAll map rest

end BoundedMap

instance {policy : Policy} {κ ν : Type} [BEq κ] [Hashable κ] :
    BoundedMap (Cache policy κ ν) κ ν where
  get := Cache.get
  put := Cache.put
  remove := Cache.remove
  containsKey := Cache.containsKey
  size := Cache.size
  capacity := Cache.capacity
  clear := Cache.clear

end EvictionCache
