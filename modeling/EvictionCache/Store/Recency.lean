import EvictionCache.Entry
import EvictionCache.Recency.Walk

/-!
# Entries in order of use

All entries form one recency chain. Nothing about an access is stored in the entry itself; its
place in the chain says when it was used.
-/
namespace EvictionCache

/-- Entries kept least recently used first. -/
structure RecencyStore (κ ν : Type) where
  /-- The order of use. -/
  chain : Chain
  /-- The entries with their links. -/
  nodes : Nodes (Entry κ ν Unit)

namespace RecencyStore

variable {κ ν : Type}

/-- A store without entries. -/
def empty : RecencyStore κ ν := ⟨.empty, .empty⟩

/-- The entry in a slot. -/
def entry? (store : RecencyStore κ ν) (slot : SlotId) : Option (Entry κ ν Unit) :=
  store.nodes.value? slot

/-- Replaces the value of the entry in a slot. -/
def setValue (store : RecencyStore κ ν) (slot : SlotId) (value : ν) : RecencyStore κ ν :=
  { store with nodes := store.nodes.modifyValue slot fun entry => entry.withValue value }

/-- An access makes the entry the most recently used. -/
def touch (store : RecencyStore κ ν) (slot : SlotId) : RecencyStore κ ν :=
  let (chain, nodes) := store.chain.moveToNewest store.nodes slot
  ⟨chain, nodes⟩

/-- Stores a new entry as the most recently used. -/
def add (store : RecencyStore κ ν) (key : κ) (value : ν) : SlotId × RecencyStore κ ν :=
  let (slot, chain, nodes) := store.chain.add store.nodes ⟨key, value, ()⟩
  (slot, ⟨chain, nodes⟩)

/-- Removes the entry in a slot. -/
def remove (store : RecencyStore κ ν) (slot : SlotId) :
    Option (Entry κ ν Unit) × RecencyStore κ ν :=
  let (entry, chain, nodes) := store.chain.remove store.nodes slot
  (entry, ⟨chain, nodes⟩)

/-- Removes the least recently used entry. -/
def popFirst (store : RecencyStore κ ν) : Option (Entry κ ν Unit) × RecencyStore κ ν :=
  let (entry, chain, nodes) := store.chain.removeOldest store.nodes
  (entry, ⟨chain, nodes⟩)

/-- The slot of the least recently used entry. -/
def first? (store : RecencyStore κ ν) : Option SlotId := store.chain.oldest

/-- All entries, least recently used first. -/
def entries (store : RecencyStore κ ν) : List (Entry κ ν Unit) :=
  store.chain.values store.nodes

/-- The figures shown in a rendering of the store. -/
def summary (store : RecencyStore κ ν) : List (String × Nat) := [("len", store.chain.length)]

end RecencyStore

end EvictionCache
