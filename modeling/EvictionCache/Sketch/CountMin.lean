import EvictionCache.Event
import EvictionCache.Sketch.Dimensions
import EvictionCache.Sketch.HashBuilder
import EvictionCache.Sketch.Mixer

/-!
# Count-min sketches

A sketch estimates how often keys were counted, in a fixed table of counters. Each row has a
hash function of its own, derived from one hash of the key and the seed of the row. A key adds
to one counter in every row; keys that share a counter add to it together, so each of its
counters is at least the count of a key, and the least of them is the estimate. Counters stop at
their greatest value.
-/
namespace EvictionCache

/-- The value at which a counter stops. -/
def maxCounter : Nat := UInt32.size - 1

/-- The sum of two counts, or the greatest counter value if it is less. -/
def saturatingAdd (left right : UInt32) : UInt32 :=
  .ofNat (min (left.toNat + right.toNat) maxCounter)

/-- A table of counters with the seeds of its rows. -/
structure CountMinSketch where
  /-- The counters, row after row. -/
  counters : Array UInt32
  /-- The seed of each row. -/
  seeds : Array UInt64
  /-- Number of counters in a row. -/
  width : UInt64
  /-- The hash function behind those of the rows. -/
  builder : HashBuilder

namespace CountMinSketch

variable {κ : Type} [HashInput κ]

/-- The word that is hashed for the row seeds when no seed is given. -/
def seedWord : UInt64 := 0x5EED

/-- The start of the sequence of row seeds: the given seed, or one from the hash builder. -/
def startingSeed (config : SketchConfig) (builder : HashBuilder) : UInt64 :=
  config.seed.getD (builder.hash seedWord)

/-- A sketch with a table of a given number of counters, all zero. -/
def build (config : SketchConfig) (builder : HashBuilder) (count : UInt64) :
    Outcome CountMinSketch Unit where
  answer := ()
  state :=
    { counters := .replicate count.toNat 0
      seeds := (Mixer.seeds (startingSeed config builder) config.depth.toNat).toArray
      width := config.width
      builder := builder }
  events := [.sketchCreated config.depth config.width]

/-- A sketch, if its configuration is valid and its table can be held. For which numbers of counters
memory is found is up to the machine. -/
def create (config : SketchConfig) (builder : HashBuilder) (allocates : UInt64 → Bool) :
    Except ConfigError (Outcome CountMinSketch Unit) := do
  let count ← config.counterCount
  if allocates count then return build config builder count else .error config.rejection

/-- A sketch of the default dimensions, seeded by the hash builder. -/
def standard (builder : HashBuilder) : Outcome CountMinSketch Unit :=
  build (SketchConfig.standard.withSeed (builder.hash seedWord)) builder
    (defaultSketchDepth * defaultSketchWidth)

/-- Number of rows. -/
def depth (sketch : CountMinSketch) : Nat := sketch.seeds.size

/-- The place in the table of the counter of a hash in a row. -/
def cell (width row seed hash : UInt64) : UInt64 :=
  row * width + Mixer.mix (hash ^^^ seed) % width

/-- The places of the counters of a hash, one in each row. -/
def cells (sketch : CountMinSketch) (hash : UInt64) : List Nat :=
  sketch.seeds.toList.mapIdx fun row seed => (cell sketch.width (.ofNat row) seed hash).toNat

/-- Adds to the count of a key. -/
def incrementBy (sketch : CountMinSketch) (key : κ) (count : UInt32) : CountMinSketch :=
  let cells := sketch.cells (sketch.builder.hash key)
  { sketch with
    counters := cells.foldl
      (fun counters cell => counters.modify cell fun counter => saturatingAdd counter count)
      sketch.counters }

/-- Counts a key once. -/
def increment (sketch : CountMinSketch) (key : κ) : CountMinSketch := sketch.incrementBy key 1

/-- The least counter of a key; without rows it is zero. -/
def estimate (sketch : CountMinSketch) (key : κ) : UInt32 :=
  let counters := (sketch.cells (sketch.builder.hash key)).map fun cell =>
    sketch.counters.getD cell 0
  counters.min?.getD 0

/-- Sets every counter to zero. -/
def clear (sketch : CountMinSketch) : Outcome CountMinSketch Unit where
  answer := ()
  state := { sketch with counters := sketch.counters.map fun _ => 0 }
  events := [.sketchCleared]

/-- The rendering of a sketch by its dimensions. -/
def rendering (sketch : CountMinSketch) : Rendering :=
  .record "CountMinSketch" [("depth", .number sketch.depth), ("width", .number sketch.width.toNat)]

end CountMinSketch

end EvictionCache
