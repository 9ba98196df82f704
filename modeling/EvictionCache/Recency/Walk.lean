import EvictionCache.Recency.Chain

/-!
# Walks along a chain

A walk visits the values of a chain one by one, from the least recently used to the most
recently used, and knows at each point how many are left. Its length is bounded by the number of
slots, because it meets no slot twice.
-/
namespace EvictionCache

universe u

/-- A position on the way from the oldest node of a chain to the newest. -/
structure Walk where
  /-- The node visited next. -/
  cursor : Option SlotId
  /-- Number of nodes not yet visited. -/
  remaining : Nat
deriving DecidableEq

/-- The walk that starts at the oldest node. -/
def Chain.walk (chain : Chain) : Walk := ⟨chain.oldest, chain.length⟩

namespace Walk

variable {α : Type u}

/-- The next value and the walk after it, or nothing at the end. -/
def next? (walk : Walk) (nodes : Nodes α) : Option (α × Walk) :=
  match walk.cursor.bind nodes.get? with
  | none => none
  | some node => some (node.value, ⟨node.newer, walk.remaining - 1⟩)

/-- Up to `limit` values and the walk after them. -/
def take (walk : Walk) (nodes : Nodes α) : Nat → List α × Walk
  | 0 => ([], walk)
  | limit + 1 =>
    match walk.next? nodes with
    | none => ([], walk)
    | some (value, rest) =>
      let (values, final) := rest.take nodes limit
      (value :: values, final)

/-- All values that the walk still visits. -/
def values (walk : Walk) (nodes : Nodes α) : List α := (walk.take nodes nodes.slots.size).1

end Walk

/-- The values of a chain, least recently used first. -/
def Chain.values {α : Type u} (chain : Chain) (nodes : Nodes α) : List α :=
  chain.walk.values nodes

end EvictionCache
