import EvictionCache.Entry
import EvictionCache.Frequency.Ranking

/-!
# Entries in order of rank

Every entry carries its rank, and a ranking lists the slots of all entries by rank. The sequence
numbers of the ranks grow with every entry stored and are never used again, also after the store
was emptied, so no two entries have one rank.
-/
namespace EvictionCache

/-- Entries kept lowest rank first. -/
structure RankedStore (κ ν : Type) where
  /-- The entries. -/
  slots : Arena (Entry κ ν Rank)
  /-- Their slots in the order of their ranks. -/
  ranking : Ranking
  /-- The sequence number of the next entry; exact while fewer than `2 ^ 64` entries were stored,
  since the modelled program keeps it in a machine word. -/
  nextSequence : Nat

namespace RankedStore

variable {κ ν : Type}

/-- A store without entries. -/
def empty : RankedStore κ ν := ⟨.empty, .empty, 0⟩

/-- The entry in a slot. -/
def entry? (store : RankedStore κ ν) (slot : SlotId) : Option (Entry κ ν Rank) :=
  store.slots.get? slot

/-- Replaces the value of the entry in a slot. -/
def setValue (store : RankedStore κ ν) (slot : SlotId) (value : ν) : RankedStore κ ν :=
  { store with slots := store.slots.modify slot fun entry => entry.withValue value }

/-- An access raises the count of the entry and ranks it anew. -/
def touch (store : RankedStore κ ν) (slot : SlotId) : RankedStore κ ν :=
  match store.entry? slot with
  | none => store
  | some entry =>
    let rank := entry.metadata.increment
    { store with
      slots := store.slots.modify slot fun entry => entry.withMetadata rank
      ranking := store.ranking.rerank entry.metadata rank }

/-- Stores a new entry with a single access and the next sequence number. -/
def add (store : RankedStore κ ν) (key : κ) (value : ν) : SlotId × RankedStore κ ν :=
  let rank := Rank.initial store.nextSequence
  let (slot, slots) := store.slots.insert ⟨key, value, rank⟩
  (slot, ⟨slots, store.ranking.insert rank slot, store.nextSequence + 1⟩)

/-- Removes the entry in a slot. -/
def remove (store : RankedStore κ ν) (slot : SlotId) :
    Option (Entry κ ν Rank) × RankedStore κ ν :=
  match store.slots.remove slot with
  | (none, _) => (none, store)
  | (some entry, slots) =>
    (some entry, { store with slots, ranking := store.ranking.erase entry.metadata })

/-- Removes the entry of the lowest rank. -/
def popFirst (store : RankedStore κ ν) : Option (Entry κ ν Rank) × RankedStore κ ν :=
  match store.ranking.popFirst with
  | (none, _) => (none, store)
  | (some slot, ranking) =>
    let (entry, slots) := store.slots.remove slot
    (entry, { store with slots, ranking })

/-- The slot of the lowest rank. -/
def first? (store : RankedStore κ ν) : Option SlotId := store.ranking.first?

/-- All entries, lowest rank first. -/
def entries (store : RankedStore κ ν) : List (Entry κ ν Rank) :=
  store.ranking.slots.filterMap store.slots.get?

/-- Removes every entry; sequence numbers go on from where they are. -/
def clear (store : RankedStore κ ν) : RankedStore κ ν :=
  { store with slots := .empty, ranking := .empty }

/-- The figures shown in a rendering of the store. -/
def summary (store : RankedStore κ ν) : List (String × Nat) := [("len", store.ranking.size)]

end RankedStore

end EvictionCache
