import EvictionCache.Cache.Basic
import EvictionCache.Closure

/-!
# Calls as data

A `Call` is one operation of a cache with its arguments, and a `Reply` is what it answers. Runs
of a cache are lists of calls: `Cache.run` carries them out one after another. A `Request` is a
call or asks for the metrics; what is asked in this way depends on all that happened before, also
on what no other answer tells.
-/
namespace EvictionCache

/-- One operation with its arguments. -/
inductive Call (κ ν ε ρ : Type) where
  /-- The value of a key, as an access. -/
  | get (key : κ)
  /-- Changes the value of a key in place, as an access. -/
  | getMut (key : κ) (write : ν → ν)
  /-- Reads the value of a key in place, as an access. -/
  | getWith (key : κ) (result : ν → Except ε ρ)
  /-- Works on the value of a key in place, as an access. -/
  | getMutWith (key : κ) (closure : Closure ν ε ρ)
  /-- The value of a key. -/
  | peek (key : κ)
  /-- Stores a value and asks for the value it replaced. -/
  | put (key : κ) (value : ν)
  /-- Stores a value and asks for the pair it displaced. -/
  | push (key : κ) (value : ν)
  /-- Stores several pairs. -/
  | extend (pairs : List (κ × ν))
  /-- Removes a key. -/
  | remove (key : κ)
  /-- Removes the first pair in the order of eviction. -/
  | pop
  /-- Removes every entry. -/
  | clear
  /-- The access count of a key. -/
  | frequency (key : κ)
  /-- Whether a key is present. -/
  | containsKey (key : κ)
  /-- Whether a value is present. -/
  | containsValue (value : ν)
  /-- Whether there are no entries. -/
  | isEmpty
  /-- Number of entries. -/
  | size
  /-- The greatest number of entries. -/
  | capacity
  /-- The first pair in the order of eviction. -/
  | candidate
  /-- All pairs in the order of eviction. -/
  | toList

/-- What is asked of a cache: a call, or an account of what was counted. -/
inductive Request (κ ν ε ρ : Type) where
  /-- One operation. -/
  | call (call : Call κ ν ε ρ)
  /-- A copy of the metrics. -/
  | metrics
  /-- The metrics by name, as floating-point numbers. -/
  | report

/-- The call of a request, if it is one. -/
def Request.call? {κ ν ε ρ : Type} : Request κ ν ε ρ → Option (Call κ ν ε ρ)
  | call own => some own
  | metrics | report => none

/-- What a request answers. -/
inductive Reply (κ ν ε ρ : Type) where
  /-- A value, or nothing. -/
  | value (value : Option ν)
  /-- What a closure finished with, or nothing if it was not run. -/
  | result (result : Option (Except ε ρ))
  /-- A pair, or nothing. -/
  | pair (pair : Option (κ × ν))
  /-- Several pairs. -/
  | pairs (pairs : List (κ × ν))
  /-- A count, or nothing. -/
  | count (count : Option Nat)
  /-- A number. -/
  | number (number : Nat)
  /-- Yes or no. -/
  | truth (truth : Bool)
  /-- All that was counted under a policy. -/
  | metrics {policy : Policy} (metrics : Metrics policy)
  /-- Named figures. -/
  | report (report : Report)
  /-- Nothing to tell. -/
  | done

namespace Cache

variable {policy : Policy} {κ ν ε ρ : Type} [BEq κ] [Hashable κ] [BEq ν]

/-- Carries out one call. -/
def perform (cache : Cache policy κ ν) :
    Call κ ν ε ρ → Outcome (Cache policy κ ν) (Reply κ ν ε ρ)
  | .get key => (cache.get key).map .value
  | .getMut key write => (cache.visit key fun value => (write value, value)).map .value
  | .getWith key result => (cache.get key).map fun value => .result (value.map result)
  | .getMutWith key closure => (cache.visit key closure.run).map .result
  | .peek key => .silent (.value (cache.peek key)) cache
  | .put key value => (cache.put key value).map .value
  | .push key value => (cache.push key value).map .pair
  | .extend pairs => (cache.extend pairs).map fun _ => .done
  | .remove key => (cache.remove key).map .value
  | .pop => cache.pop.map .pair
  | .clear => cache.clear.map fun _ => .done
  | .frequency key => .silent (.count (cache.frequency? key)) cache
  | .containsKey key => .silent (.truth (cache.containsKey key)) cache
  | .containsValue value => .silent (.truth (cache.containsValue value)) cache
  | .isEmpty => .silent (.truth cache.isEmpty) cache
  | .size => .silent (.number cache.size) cache
  | .capacity => .silent (.number cache.capacity) cache
  | .candidate => .silent (.pair cache.candidate?) cache
  | .toList => .silent (.pairs cache.toList) cache

/-- Carries out calls one after another and collects their answers. -/
def run (cache : Cache policy κ ν) :
    List (Call κ ν ε ρ) → Outcome (Cache policy κ ν) (List (Reply κ ν ε ρ))
  | [] => .silent [] cache
  | call :: rest =>
    (cache.perform call).andThen fun reply cache =>
      (cache.run rest).map fun replies => reply :: replies

/-- Carries out one request. Asking for metrics changes nothing. -/
def serve (cache : Cache policy κ ν) :
    Request κ ν ε ρ → Outcome (Cache policy κ ν) (Reply κ ν ε ρ)
  | .call call => cache.perform call
  | .metrics => .silent (.metrics cache.metrics) cache
  | .report => .silent (.report cache.metrics.report) cache

/-- Carries out requests one after another and collects their answers. -/
def serveAll (cache : Cache policy κ ν) :
    List (Request κ ν ε ρ) → Outcome (Cache policy κ ν) (List (Reply κ ν ε ρ))
  | [] => .silent [] cache
  | request :: rest =>
    (cache.serve request).andThen fun reply cache =>
      (cache.serveAll rest).map fun replies => reply :: replies

end Cache

end EvictionCache
