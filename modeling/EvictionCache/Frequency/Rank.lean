import Std.Data.TreeMap

/-!
# Access counts and ranks

Every entry counts its accesses, beginning with the one that stored it. A count stops at the
greatest machine word instead of starting over. A rank adds to the count the place of the entry
in the order of insertion; ranks compare by count first, so distinct entries never tie.
-/
namespace EvictionCache

/-- The count at which counting stops. -/
def maxAccessCount : Nat := UInt64.size - 1

/-- The count after one more access. -/
def nextCount (count : Nat) : Nat := min (count + 1) maxAccessCount

/-- The access count of an entry. -/
structure AccessCount where
  /-- Number of accesses. -/
  frequency : Nat
deriving DecidableEq

namespace AccessCount

/-- Storing an entry is its first access. -/
def initial : AccessCount := ⟨1⟩

/-- One more access. -/
def increment (count : AccessCount) : AccessCount := ⟨nextCount count.frequency⟩

end AccessCount

/-- The place of an entry in the order of eviction, lowest first. -/
structure Rank where
  /-- Number of accesses. -/
  frequency : Nat
  /-- Number of entries stored before this one. -/
  sequence : Nat
deriving DecidableEq

namespace Rank

/-- The rank of an entry that was just stored. -/
def initial (sequence : Nat) : Rank := ⟨1, sequence⟩

/-- One more access; the order of insertion stays. -/
def increment (rank : Rank) : Rank := { rank with frequency := nextCount rank.frequency }

/-- Ranks compare by count, and at equal counts by insertion. -/
instance : Ord Rank where
  compare := compareLex (compareOn frequency) (compareOn sequence)

/-- The order of ranks is a total preorder. -/
instance : Std.TransOrd Rank :=
  inferInstanceAs (Std.TransCmp (compareLex (compareOn frequency) (compareOn sequence)))

/-- Ranks that compare as equal are the same. -/
instance : Std.LawfulEqOrd Rank where
  eq_of_compare {left right} same := by
    obtain ⟨frequency, sequence⟩ := left
    obtain ⟨otherFrequency, otherSequence⟩ := right
    change (compare frequency otherFrequency).then (compare sequence otherSequence) = .eq at same
    rw [Ordering.then_eq_eq, Nat.compare_eq_eq, Nat.compare_eq_eq] at same
    rw [same.1, same.2]

end Rank

end EvictionCache
