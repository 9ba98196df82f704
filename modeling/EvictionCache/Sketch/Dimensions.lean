import EvictionCache.ConfigError

/-!
# Sketch dimensions

A sketch is a table of counters, one row per hash function. Depth and width are machine words,
so their product is taken with a check for overflow before it is compared with the greatest
number of counters that one allocation can address.
-/
namespace EvictionCache

/-- Rows of a sketch, unless told otherwise. -/
def defaultSketchDepth : UInt64 := 4

/-- Counters per row, unless told otherwise. -/
def defaultSketchWidth : UInt64 := 128

/-- The greatest table: as many eight-byte words as have byte offsets in a signed word. -/
def maxSketchCounters : UInt64 := 0x7FFFFFFFFFFFFFFF / 8

/-- The product of two words, unless it overflows. -/
def checkedProduct (left right : UInt64) : Option UInt64 :=
  if left = 0 ∨ right ≤ 0xFFFFFFFFFFFFFFFF / left then some (left * right) else none

/-- The configuration of a count-min sketch. -/
structure SketchConfig where
  /-- Number of rows, each with a hash function of its own. -/
  depth : UInt64
  /-- Number of counters in a row. -/
  width : UInt64
  /-- The start of the sequence of row seeds; without one it comes from the hash builder. -/
  seed : Option UInt64
deriving DecidableEq

namespace SketchConfig

/-- Dimensions without a seed. -/
def ofDimensions (depth width : UInt64) : SketchConfig := ⟨depth, width, none⟩

/-- The default dimensions without a seed. -/
def standard : SketchConfig := ofDimensions defaultSketchDepth defaultSketchWidth

/-- The same dimensions with a seed. -/
def withSeed (config : SketchConfig) (seed : UInt64) : SketchConfig :=
  { config with seed := some seed }

/-- The error that reports these dimensions. -/
def rejection (config : SketchConfig) : ConfigError :=
  .invalidSketchDimensions config.depth config.width

/-- The number of counters in the table, if there are any and not too many. -/
def counterCount (config : SketchConfig) : Except ConfigError UInt64 :=
  match checkedProduct config.depth config.width with
  | some count =>
    if 0 < count && count ≤ maxSketchCounters then .ok count else .error config.rejection
  | none => .error config.rejection

/-- A configuration is valid when its table can be addressed. -/
def validate (config : SketchConfig) : Except ConfigError Unit :=
  config.counterCount.map fun _ => ()

/-- The rendering of a configuration. -/
def rendering (config : SketchConfig) : Rendering :=
  .record "CountMinSketchConfig" [
    ("depth", .number config.depth.toNat),
    ("width", .number config.width.toNat),
    ("seed", .optional (config.seed.map fun seed => .number seed.toNat))]

end SketchConfig

end EvictionCache
