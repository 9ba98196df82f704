import EvictionCache.Shared.Basic

/-!
# Calls on a shared cache

A shared cache offers fewer operations than a cache of one owner: nothing that hands out several
entries, and nothing that depends on who else is using the cache between two calls. Each
`SharedCall` is also a request to a cache of one owner; the metrics, too, are asked for by a call,
since they may only be read under the lock. The expected number of threads and the names of a
shared cache were fixed at construction and are not asked for by calls; its rendering shows them
beside the answers to `capacity` and `size`.
-/
namespace EvictionCache

/-- One operation of a shared cache with its arguments. -/
inductive SharedCall (κ ν ε ρ : Type) where
  /-- The value of a key, as an access. -/
  | get (key : κ)
  /-- Reads the value of a key in place, as an access. -/
  | getWith (key : κ) (result : ν → Except ε ρ)
  /-- Works on the value of a key in place, as an access. -/
  | getMutWith (key : κ) (closure : Closure ν ε ρ)
  /-- The value of a key. -/
  | peek (key : κ)
  /-- Stores a value and asks for the value it replaced. -/
  | put (key : κ) (value : ν)
  /-- Stores a value and asks for the pair it displaced. -/
  | push (key : κ) (value : ν)
  /-- Removes a key. -/
  | remove (key : κ)
  /-- Removes every entry. -/
  | clear
  /-- The access count of a key. -/
  | frequency (key : κ)
  /-- Whether a key is present. -/
  | containsKey (key : κ)
  /-- Whether there are no entries. -/
  | isEmpty
  /-- Number of entries. -/
  | size
  /-- The greatest number of entries. -/
  | capacity
  /-- A copy of the metrics. -/
  | metrics
  /-- The metrics by name, as floating-point numbers. -/
  | report

variable {policy : Policy} {κ ν ε ρ : Type} [BEq κ] [Hashable κ]

/-- The same request to a cache of one owner. -/
def SharedCall.alone : SharedCall κ ν ε ρ → Request κ ν ε ρ
  | get key => .call (.get key)
  | getWith key result => .call (.getWith key result)
  | getMutWith key closure => .call (.getMutWith key closure)
  | peek key => .call (.peek key)
  | put key value => .call (.put key value)
  | push key value => .call (.push key value)
  | remove key => .call (.remove key)
  | clear => .call .clear
  | frequency key => .call (.frequency key)
  | containsKey key => .call (.containsKey key)
  | isEmpty => .call .isEmpty
  | size => .call .size
  | capacity => .call .capacity
  | metrics => .metrics
  | report => .report

namespace SharedCache

/-- Carries out one call. -/
def perform (shared : SharedCache policy κ ν) :
    SharedCall κ ν ε ρ → Outcome (SharedCache policy κ ν) (Reply κ ν ε ρ)
  | .get key => (shared.get key).map .value
  | .getWith key result => (shared.getWith key result).map .result
  | .getMutWith key closure => (shared.getMutWith key closure).map .result
  | .peek key => .silent (.value (shared.peek key)) shared
  | .put key value => (shared.put key value).map .value
  | .push key value => (shared.push key value).map .pair
  | .remove key => (shared.remove key).map .value
  | .clear => shared.clear.map fun _ => .done
  | .frequency key => .silent (.count (shared.frequency? key)) shared
  | .containsKey key => .silent (.truth (shared.containsKey key)) shared
  | .isEmpty => .silent (.truth shared.isEmpty) shared
  | .size => .silent (.number shared.size) shared
  | .capacity => .silent (.number shared.capacity) shared
  | .metrics => .silent (.metrics shared.metrics) shared
  | .report => .silent (.report shared.metrics.report) shared

/-- Carries out calls one after another and collects their answers. -/
def run (shared : SharedCache policy κ ν) :
    List (SharedCall κ ν ε ρ) → Outcome (SharedCache policy κ ν) (List (Reply κ ν ε ρ))
  | [] => .silent [] shared
  | call :: rest =>
    (shared.perform call).andThen fun reply shared =>
      (shared.run rest).map fun replies => reply :: replies

end SharedCache

end EvictionCache
