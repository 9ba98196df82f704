import EvictionCache.Policy

/-!
# Log events

Building a cache or a sketch, evicting an entry and clearing leave a record in the log. An
operation returns the events that it caused, in the order in which they happened.
-/
namespace EvictionCache

/-- The weight of a log record. -/
inductive LogLevel where
  /-- Rare, about construction. -/
  | debug
  /-- Frequent, about single operations. -/
  | trace
deriving DecidableEq

/-- The name of a level. -/
def LogLevel.name : LogLevel → String
  | debug => "DEBUG"
  | trace => "TRACE"

/-- What is worth a log record. -/
inductive Event where
  /-- A cache was built from a configuration. -/
  | cacheCreated (policy : Policy) (capacity : Nat)
  /-- A shared cache was built from a configuration. -/
  | sharedCacheCreated (policy : Policy) (capacity concurrencyLevel : Nat)
  /-- An entry made room for another. -/
  | evicted (policy : Policy)
  /-- All entries are about to be removed. -/
  | clearing (policy : Policy) (entries : Nat)
  /-- A sketch was built. -/
  | sketchCreated (depth width : UInt64)
  /-- All counters of a sketch were reset. -/
  | sketchCleared
deriving DecidableEq

namespace Event

/-- The level of an event. -/
def level : Event → LogLevel
  | cacheCreated _ _ | sharedCacheCreated _ _ _ | sketchCreated _ _ => .debug
  | evicted _ | clearing _ _ | sketchCleared => .trace

/-- How the record of an eviction names the entry that left. -/
def evictionMessage : Policy → String
  | .lru => "lru segment evicted its least recently used entry"
  | .lfu => "lfu segment evicted its least frequently used entry"
  | .lfru => "lfru segment evicted from its lowest frequency bucket"

/-- The text of an event. -/
def message : Event → String
  | cacheCreated policy capacity =>
    "creating " ++ policy.label ++ " cache with capacity " ++ toString capacity
  | sharedCacheCreated policy capacity concurrencyLevel =>
    "creating concurrent " ++ policy.label ++ " cache with capacity " ++ toString capacity ++
      " for " ++ toString concurrencyLevel ++ " threads"
  | evicted policy => evictionMessage policy
  | clearing policy entries =>
    "clearing " ++ policy.label ++ " segment with " ++ toString entries ++ " entries"
  | sketchCreated depth width =>
    "created count-min sketch with depth " ++ toString depth.toNat ++ " and width " ++
      toString width.toNat
  | sketchCleared => "cleared count-min sketch"

end Event

/-- The result of an operation: what it answers, the state it leaves and the events it caused. -/
structure Outcome (σ α : Type) where
  /-- What the caller is told. -/
  answer : α
  /-- The state after the operation. -/
  state : σ
  /-- The events, oldest first. -/
  events : List Event

namespace Outcome

variable {σ τ α β : Type}

/-- An answer that causes no event. -/
def silent (answer : α) (state : σ) : Outcome σ α := ⟨answer, state, []⟩

/-- Changes the answer only. -/
def map (change : α → β) (outcome : Outcome σ α) : Outcome σ β :=
  ⟨change outcome.answer, outcome.state, outcome.events⟩

/-- Changes the state only. -/
def mapState (change : σ → τ) (outcome : Outcome σ α) : Outcome τ α :=
  ⟨outcome.answer, change outcome.state, outcome.events⟩

/-- Continues from the state of an outcome; the events of both come one after the other. -/
def andThen (outcome : Outcome σ α) (next : α → σ → Outcome σ β) : Outcome σ β :=
  let continued := next outcome.answer outcome.state
  ⟨continued.answer, continued.state, outcome.events ++ continued.events⟩

end Outcome

end EvictionCache
