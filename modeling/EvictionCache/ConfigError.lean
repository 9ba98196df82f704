import EvictionCache.Binary32

/-!
# Rejected configurations

Operations on a cache or a sketch never fail; only a configuration can be rejected, before
anything is built from it. A `ConfigError` names the cause and carries what was given.
-/
namespace EvictionCache

/-- Why a configuration was rejected. -/
inductive ConfigError where
  /-- A cache must hold at least one entry. -/
  | zeroCapacity
  /-- The load factor is not a finite number above zero and up to one. -/
  | invalidLoadFactor (given : Binary32)
  /-- A shared cache must expect at least one thread. -/
  | zeroConcurrencyLevel
  /-- A sketch has no counters, or more than can be held. -/
  | invalidSketchDimensions (depth width : UInt64)
deriving BEq

namespace ConfigError

/-- The name of the cause. -/
def name : ConfigError → String
  | zeroCapacity => "ZeroCapacity"
  | invalidLoadFactor _ => "InvalidLoadFactor"
  | zeroConcurrencyLevel => "ZeroConcurrencyLevel"
  | invalidSketchDimensions _ _ => "InvalidSketchDimensions"

/-- The message shown to a user. -/
def message : ConfigError → String
  | zeroCapacity => "cache capacity must be greater than zero"
  | invalidLoadFactor given =>
    "load factor must be in (0, 1], got " ++ given.text Binary32.messageLayout
  | zeroConcurrencyLevel => "concurrency level must be greater than zero"
  | invalidSketchDimensions depth width =>
    "sketch dimensions must be non-zero and fit in memory, got depth " ++
      toString depth.toNat ++ " and width " ++ toString width.toNat

/-- The rendering of an error with what it carries. -/
def rendering (error : ConfigError) : Rendering :=
  match error with
  | zeroCapacity | zeroConcurrencyLevel => .atom error.name
  | invalidLoadFactor given => .applied error.name [given.rendering]
  | invalidSketchDimensions depth width =>
    .record error.name [("depth", .number depth.toNat), ("width", .number width.toNat)]

end ConfigError

end EvictionCache
