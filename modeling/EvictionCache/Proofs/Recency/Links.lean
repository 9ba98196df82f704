import EvictionCache.Recency.Lemmas
import Mathlib.Data.List.Nodup

/-!
# Following the links of a chain

The links alone tell whether a chain is sound. From the oldest node the newer links lead over as
many nodes as the chain counts, to the newest node and no further, and each older link leads
back where a newer link came from (`Chain.WellLinked`). A chain that spells a sequence of slots
is well linked, and the way along its newer links meets exactly the slots of the sequence.
-/
namespace EvictionCache

universe u

variable {α : Type u}

/-- The newer neighbour of the node in a slot. -/
def Nodes.newer? (nodes : Nodes α) (slot : SlotId) : Option SlotId :=
  (nodes.get? slot).bind Node.newer

/-- The older neighbour of the node in a slot. -/
def Nodes.older? (nodes : Nodes α) (slot : SlotId) : Option SlotId :=
  (nodes.get? slot).bind Node.older

namespace Chain

/-- The slot to which a number of newer links lead from the oldest node. -/
def ascend (chain : Chain) (nodes : Nodes α) : Nat → Option SlotId
  | 0 => chain.oldest
  | steps + 1 => (chain.ascend nodes steps).bind nodes.newer?

/-- A slot is on the way from the oldest node along the newer links. -/
def Visits (chain : Chain) (nodes : Nodes α) (slot : SlotId) : Prop :=
  ∃ steps, chain.ascend nodes steps = some slot

/-- A chain whose links lead from end to end over as many nodes as it counts, and back. -/
structure WellLinked (chain : Chain) (nodes : Nodes α) : Prop where
  /-- The way from the oldest node goes over as many nodes as are counted. -/
  ascend_isSome_iff : ∀ steps, (chain.ascend nodes steps).isSome ↔ steps < chain.length
  /-- It meets no slot twice. -/
  ascend_inj : ∀ one other slot,
    chain.ascend nodes one = some slot → chain.ascend nodes other = some slot → one = other
  /-- It ends at the newest node. -/
  newest_eq : chain.newest = chain.ascend nodes (chain.length - 1)
  /-- It meets occupied slots only. -/
  live : ∀ slot, chain.Visits nodes slot → nodes.isLive slot = true
  /-- The way back leads from the newer neighbour of a node to the node. -/
  older?_of_newer? : ∀ slot other, chain.Visits nodes slot → nodes.newer? slot = some other →
    nodes.older? other = some slot
  /-- The older neighbour of a node is on the way, and its newer link leads to the node. -/
  newer?_of_older? : ∀ slot other, chain.Visits nodes slot → nodes.older? slot = some other →
    chain.Visits nodes other ∧ nodes.newer? other = some slot
  /-- Nothing is newer than the newest node. -/
  newest_last : ∀ slot, chain.newest = some slot → nodes.newer? slot = none
  /-- Nothing is older than the oldest node. -/
  oldest_first : ∀ slot, chain.oldest = some slot → nodes.older? slot = none

namespace Spells

variable {chain : Chain} {nodes : Nodes α} {slots : List SlotId} {slot : SlotId}

/-- The links of a node lead to its neighbours in the sequence, here read oldest first. -/
theorem links_eq (spells : chain.Spells nodes slots) {before after : List SlotId}
    (split : slots.reverse = before ++ slot :: after) :
    nodes.newer? slot = after.head? ∧ nodes.older? slot = before.getLast? := by
  have whole : slots = after.reverse ++ slot :: before.reverse := by
    rw [← List.reverse_reverse slots, split]
    simp
  rw [whole] at spells
  obtain ⟨value, held⟩ := spells.node_eq
  constructor
  · simp [Nodes.newer?, held]
  · simp [Nodes.older?, held]

/-- Following newer links reads the sequence from its end. -/
theorem ascend_eq (spells : chain.Spells nodes slots) (steps : Nat) :
    chain.ascend nodes steps = slots.reverse[steps]? := by
  induction steps with
  | zero => rw [ascend, spells.oldest_eq, ← List.head?_reverse, List.head?_eq_getElem?]
  | succ steps ih =>
    rw [ascend, ih]
    by_cases inside : steps < slots.reverse.length
    · have split : slots.reverse = slots.reverse.take steps ++
          slots.reverse[steps] :: slots.reverse.drop (steps + 1) := by
        rw [← List.drop_eq_getElem_cons inside, List.take_append_drop]
      have next := (spells.links_eq split).1
      rw [List.getElem?_eq_getElem inside, Option.bind_some, next, List.head?_drop]
    · have beyond : slots.reverse.length ≤ steps := Nat.le_of_not_lt inside
      rw [List.getElem?_eq_none beyond, Option.bind_none,
        List.getElem?_eq_none (Nat.le_succ_of_le beyond)]

/-- The way along the newer links meets exactly the slots of the sequence. -/
theorem visits_iff (spells : chain.Spells nodes slots) :
    chain.Visits nodes slot ↔ slot ∈ slots := by
  rw [← List.mem_reverse, List.mem_iff_getElem?]
  exact exists_congr fun steps => by rw [spells.ascend_eq]

/-- A chain that spells a sequence is well linked. -/
theorem wellLinked (spells : chain.Spells nodes slots) : chain.WellLinked nodes where
  ascend_isSome_iff steps := by
    rw [spells.ascend_eq, spells.length_eq, ← List.length_reverse]
    simp
  ascend_inj one other slot first second := by
    rw [spells.ascend_eq] at first second
    have nodup : slots.reverse.Nodup := List.nodup_reverse.mpr spells.nodup
    have inside := (List.getElem?_eq_some_iff.mp first).1
    exact (List.getElem?_inj inside nodup).mp (first.trans second.symm)
  newest_eq := by
    rw [spells.ascend_eq, spells.newest_eq, spells.length_eq, ← List.getLast?_reverse,
      List.getLast?_eq_getElem?, List.length_reverse]
  live slot visited := by
    obtain ⟨node, held⟩ := spells.linked.exists_node (spells.visits_iff.mp visited)
    rw [Arena.isLive, held, Option.isSome_some]
  older?_of_newer? slot other visited newer := by
    obtain ⟨before, after, split⟩ :=
      List.append_of_mem (List.mem_reverse.mpr (spells.visits_iff.mp visited))
    rw [(spells.links_eq split).1, List.head?_eq_some_iff] at newer
    obtain ⟨rest, rfl⟩ := newer
    have next : slots.reverse = (before ++ [slot]) ++ other :: rest := by simp [split]
    rw [(spells.links_eq next).2, List.getLast?_concat]
  newer?_of_older? slot other visited older := by
    obtain ⟨before, after, split⟩ :=
      List.append_of_mem (List.mem_reverse.mpr (spells.visits_iff.mp visited))
    rw [(spells.links_eq split).2, List.getLast?_eq_some_iff] at older
    obtain ⟨rest, rfl⟩ := older
    have previous : slots.reverse = rest ++ other :: slot :: after := by simp [split]
    have member : other ∈ slots := by
      rw [← List.mem_reverse, previous]
      simp
    exact ⟨spells.visits_iff.mpr member, (spells.links_eq previous).1⟩
  newest_last slot isNewest := by
    rw [spells.newest_eq, List.head?_eq_some_iff] at isNewest
    obtain ⟨rest, rfl⟩ := isNewest
    have last : (slot :: rest).reverse = rest.reverse ++ [slot] := List.reverse_cons
    exact (spells.links_eq last).1
  oldest_first slot isOldest := by
    rw [spells.oldest_eq, List.getLast?_eq_some_iff] at isOldest
    obtain ⟨rest, rfl⟩ := isOldest
    have first : (rest ++ [slot]).reverse = [] ++ slot :: rest.reverse := List.reverse_concat
    exact (spells.links_eq first).2

end Spells

end Chain

end EvictionCache
