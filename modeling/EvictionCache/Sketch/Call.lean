import EvictionCache.Sketch.CountMin

/-!
# Runs of sketches

A `SketchCall` is one operation that changes a sketch, with its arguments. Runs of a sketch are
lists of calls, carried out one after another.
-/
namespace EvictionCache

/-- One operation that changes a sketch. -/
inductive SketchCall (κ : Type) where
  /-- Counts a key once. -/
  | increment (key : κ)
  /-- Adds to the count of a key. -/
  | incrementBy (key : κ) (count : UInt32)
  /-- Sets every counter to zero. -/
  | clear

namespace CountMinSketch

variable {κ : Type} [HashInput κ]

/-- Carries out one call. -/
def perform (sketch : CountMinSketch) : SketchCall κ → CountMinSketch
  | .increment key => sketch.increment key
  | .incrementBy key count => sketch.incrementBy key count
  | .clear => sketch.clear.state

/-- Carries out calls one after another. -/
def run (sketch : CountMinSketch) (calls : List (SketchCall κ)) : CountMinSketch :=
  calls.foldl perform sketch

end CountMinSketch

end EvictionCache
