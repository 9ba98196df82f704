import EvictionCache.Recency.Walk
import Std.Data.TreeMap

/-!
# Frequency buckets

Buckets group nodes by access count. Each bucket is a recency chain, and all buckets share one
arena, so a node that reaches the next count is linked anew but stays in its slot. Only buckets
with nodes are kept; the next node to be evicted is therefore the oldest of the first bucket.
-/
namespace EvictionCache

universe u

/-- The recency chain of each access count. -/
structure Buckets where
  /-- Chains by count. -/
  chains : Std.TreeMap Nat Chain

namespace Buckets

variable {α : Type u}

/-- No buckets at all. -/
def empty : Buckets := ⟨∅⟩

/-- Number of buckets. -/
def size (buckets : Buckets) : Nat := buckets.chains.size

/-- The chain of a count; without a bucket it is empty. -/
def chain (buckets : Buckets) (count : Nat) : Chain := buckets.chains.getD count .empty

/-- Replaces the chain of a count. -/
def setChain (buckets : Buckets) (count : Nat) (chain : Chain) : Buckets :=
  ⟨buckets.chains.insert count chain⟩

/-- Replaces the chain of a count, or drops the bucket if no node is left in it. -/
def setOrDrop (buckets : Buckets) (count : Nat) (chain : Chain) : Buckets :=
  if chain.length = 0 then ⟨buckets.chains.erase count⟩ else buckets.setChain count chain

/-- Stores a value at the most recent end of a bucket. -/
def add (buckets : Buckets) (nodes : Nodes α) (count : Nat) (value : α) :
    SlotId × Buckets × Nodes α :=
  let (slot, chain, nodes) := (buckets.chain count).add nodes value
  (slot, buckets.setChain count chain, nodes)

/-- Links a detached node at the most recent end of a bucket. -/
def attach (buckets : Buckets) (nodes : Nodes α) (slot : SlotId) (count : Nat) :
    Buckets × Nodes α :=
  let (chain, nodes) := (buckets.chain count).attach nodes slot
  (buckets.setChain count chain, nodes)

/-- Unlinks a node from its bucket, and drops the bucket if it was the last. -/
def detach (buckets : Buckets) (nodes : Nodes α) (slot : SlotId) (count : Nat) :
    Buckets × Nodes α :=
  match buckets.chains[count]? with
  | none => (buckets, nodes)
  | some chain =>
    let (chain, nodes) := chain.detach nodes slot
    (buckets.setOrDrop count chain, nodes)

/-- Moves a node to the most recent end of another bucket, or of its own. -/
def promote (buckets : Buckets) (nodes : Nodes α) (slot : SlotId) (old new : Nat) :
    Buckets × Nodes α :=
  if old = new then
    match buckets.chains[old]? with
    | none => (buckets, nodes)
    | some chain =>
      let (chain, nodes) := chain.moveToNewest nodes slot
      (buckets.setChain old chain, nodes)
  else
    let (buckets, nodes) := buckets.detach nodes slot old
    buckets.attach nodes slot new

/-- Unlinks a node from its bucket and gives up its slot. -/
def remove (buckets : Buckets) (nodes : Nodes α) (slot : SlotId) (count : Nat) :
    Option α × Buckets × Nodes α :=
  let (buckets, nodes) := buckets.detach nodes slot count
  let (node, nodes) := nodes.remove slot
  (node.map Node.value, buckets, nodes)

/-- The oldest node of the lowest bucket. -/
def lowest? (buckets : Buckets) : Option SlotId :=
  buckets.chains.minKey?.bind fun count => (buckets.chain count).oldest

/-- Removes the oldest node of the lowest bucket. -/
def popLowest (buckets : Buckets) (nodes : Nodes α) : Option α × Buckets × Nodes α :=
  match buckets.chains.minKey? with
  | none => (none, buckets, nodes)
  | some count =>
    let (value, chain, nodes) := (buckets.chain count).removeOldest nodes
    (value, buckets.setOrDrop count chain, nodes)

/-- All values, by increasing count and within a count oldest first. -/
def values (buckets : Buckets) (nodes : Nodes α) : List α :=
  buckets.chains.toList.flatMap fun bucket => bucket.2.values nodes

end Buckets

end EvictionCache
