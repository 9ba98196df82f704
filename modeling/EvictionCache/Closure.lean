/-!
# Closures run on a cached value

A caller may work on a cached value in place. A closure is what the caller does there: it reads
the value, writes it any number of times, and at last finishes with a result or fails. What it
wrote before it failed stays written.
-/
namespace EvictionCache

/-- The steps of a caller on a value of type `ν`; failures are in `ε` and results in `ρ`. -/
inductive Closure (ν ε ρ : Type) where
  /-- No further step. -/
  | finish (result : Except ε ρ)
  /-- Goes on according to the present value. -/
  | read (next : ν → Closure ν ε ρ)
  /-- Leaves a new value and goes on. -/
  | write (value : ν) (next : Closure ν ε ρ)

namespace Closure

variable {ν ε ρ : Type}

/-- The value left behind and the result. -/
def run : Closure ν ε ρ → ν → ν × Except ε ρ
  | finish result, value => (value, result)
  | read next, value => (next value).run value
  | write written next, _ => next.run written

/-- Reads the value and finishes with what is made of it. -/
def reading (result : ν → Except ε ρ) : Closure ν ε ρ := read fun value => finish (result value)

/-- Writes a value and finishes with what is made of the old one. -/
def replacing (value : ν) (result : ν → Except ε ρ) : Closure ν ε ρ :=
  read fun old => write value (finish (result old))

end Closure

end EvictionCache
