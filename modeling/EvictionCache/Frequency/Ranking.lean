import EvictionCache.Frequency.Rank
import EvictionCache.Slot.Arena

/-!
# Rankings

A ranking lists slots by the rank of their entries. The lowest rank is the next to be evicted.
-/
namespace EvictionCache

/-- Slots in the order of their ranks. -/
structure Ranking where
  /-- The slot of each rank. -/
  ranks : Std.TreeMap Rank SlotId

namespace Ranking

/-- A ranking without slots. -/
def empty : Ranking := ⟨∅⟩

/-- Number of ranked slots. -/
def size (ranking : Ranking) : Nat := ranking.ranks.size

/-- Lists a slot under a rank. -/
def insert (ranking : Ranking) (rank : Rank) (slot : SlotId) : Ranking :=
  ⟨ranking.ranks.insert rank slot⟩

/-- Drops a rank. -/
def erase (ranking : Ranking) (rank : Rank) : Ranking := ⟨ranking.ranks.erase rank⟩

/-- Moves a slot from its old rank to a new one. -/
def rerank (ranking : Ranking) (old new : Rank) : Ranking :=
  if old = new then ranking
  else
    match ranking.ranks[old]? with
    | none => ranking
    | some slot => (ranking.erase old).insert new slot

/-- The slot of the lowest rank. -/
def first? (ranking : Ranking) : Option SlotId :=
  ranking.ranks.minKey?.bind fun rank => ranking.ranks[rank]?

/-- Drops the lowest rank and returns its slot. -/
def popFirst (ranking : Ranking) : Option SlotId × Ranking :=
  match ranking.ranks.minKey? with
  | none => (none, ranking)
  | some rank => (ranking.ranks[rank]?, ranking.erase rank)

/-- All slots, lowest rank first. -/
def slots (ranking : Ranking) : List SlotId := ranking.ranks.toList.map Prod.snd

end Ranking

end EvictionCache
