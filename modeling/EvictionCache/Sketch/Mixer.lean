/-!
# Mixing words

`mix` spreads every bit of a word over the whole word: two rounds of folding the high bits onto
the low ones and multiplying by an odd constant, and a last fold. `seeds` draws a sequence of
words by mixing a state that advances by a fixed odd step.
-/
namespace EvictionCache.Mixer

/-- Folds the bits from `shift` on onto the low end of a word. -/
def fold (word shift : UInt64) : UInt64 := word ^^^ (word >>> shift)

/-- The multiplier of the first round. -/
def firstMultiplier : UInt64 := 0xBF58476D1CE4E5B9

/-- The multiplier of the second round. -/
def secondMultiplier : UInt64 := 0x94D049BB133111EB

/-- Spreads every bit of a word over the whole word. -/
def mix (word : UInt64) : UInt64 :=
  fold (fold (fold word 30 * firstMultiplier) 27 * secondMultiplier) 31

/-- The distance from one state to the next. -/
def step : UInt64 := 0x9E3779B97F4A7C15

/-- A sequence of mixed words, given the state before the first. -/
def seeds (state : UInt64) : Nat → List UInt64
  | 0 => []
  | count + 1 => mix (state + step) :: seeds (state + step) count

end EvictionCache.Mixer
