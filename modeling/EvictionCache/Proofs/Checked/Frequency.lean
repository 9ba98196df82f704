import EvictionCache.Frequency.Ranking
import EvictionCache.Proofs.Checked.Chain
import EvictionCache.Proofs.Frequency.Buckets

/-!
# Buckets and rankings that check what they rely on

The checked operations on buckets hand a node to the chain of its count only, and know the chains
of the other counts, into which it must not be linked. Those on rankings never put a slot under a
rank that is taken, and never look for a rank that is not there.
-/
namespace EvictionCache

namespace Buckets

variable {α : Type}

/-- The chains of all other counts. -/
def besides (buckets : Buckets) (count : Nat) : List Chain :=
  (buckets.chains.toList.filter fun bucket => bucket.1 ≠ count).map Prod.snd

section Operations

/-- Stores a value at the most recent end of a bucket. -/
def addChecked (buckets : Buckets) (nodes : Nodes α) (count : Nat) (value : α) :
    Except Fault (SlotId × Buckets × Nodes α) := do
  let (slot, chain, nodes) ←
    (buckets.chain count).addChecked (buckets.besides count) nodes value
  return (slot, buckets.setChain count chain, nodes)

/-- Links a detached node at the most recent end of a bucket. -/
def attachChecked (buckets : Buckets) (nodes : Nodes α) (slot : SlotId) (count : Nat) :
    Except Fault (Buckets × Nodes α) := do
  let (chain, nodes) ← (buckets.chain count).attachChecked (buckets.besides count) nodes slot
  return (buckets.setChain count chain, nodes)

/-- Unlinks a node from its bucket, which must exist. -/
def detachChecked (buckets : Buckets) (nodes : Nodes α) (slot : SlotId) (count : Nat) :
    Except Fault (Buckets × Nodes α) := do
  let chain ← demand .missingBucket buckets.chains[count]?
  let (chain, nodes) ← chain.detachChecked (buckets.besides count) nodes slot
  return (buckets.setOrDrop count chain, nodes)

/-- Moves a node to the most recent end of another bucket, or of its own. The bucket in which it
was must exist. -/
def promoteChecked (buckets : Buckets) (nodes : Nodes α) (slot : SlotId) (old new : Nat) :
    Except Fault (Buckets × Nodes α) :=
  if old = new then do
    let chain ← demand .missingBucket buckets.chains[old]?
    let (chain, nodes) ← chain.moveToNewestChecked (buckets.besides old) nodes slot
    return (buckets.setChain old chain, nodes)
  else do
    let (buckets, nodes) ← buckets.detachChecked nodes slot old
    buckets.attachChecked nodes slot new

/-- Unlinks a node from its bucket and gives up its slot. -/
def removeChecked (buckets : Buckets) (nodes : Nodes α) (slot : SlotId) (count : Nat) :
    Except Fault (α × Buckets × Nodes α) := do
  let (buckets, nodes) ← buckets.detachChecked nodes slot count
  let (node, nodes) ← nodes.removeChecked slot
  return (node.value, buckets, nodes)

/-- The oldest node of the lowest bucket, which must have one. -/
def lowestChecked (buckets : Buckets) : Except Fault (Option SlotId) :=
  match buckets.chains.minKey? with
  | none => return none
  | some count => do
    let slot ← demand .emptyChain (buckets.chain count).oldest
    return some slot

/-- Removes the oldest node of the lowest bucket, which must have one. -/
def popLowestChecked (buckets : Buckets) (nodes : Nodes α) :
    Except Fault (Option α × Buckets × Nodes α) :=
  match buckets.chains.minKey? with
  | none => return (none, buckets, nodes)
  | some count => do
    check (0 < (buckets.chain count).length) .emptyChain
    let (value, chain, nodes) ←
      (buckets.chain count).removeOldestChecked (buckets.besides count) nodes
    return (value, buckets.setOrDrop count chain, nodes)

/-- All values, by increasing count and within a count oldest first. -/
def valuesChecked (buckets : Buckets) (nodes : Nodes α) : Except Fault (List α) := do
  let values ← buckets.chains.toList.mapM fun bucket => bucket.2.valuesChecked nodes
  return values.flatten

end Operations

namespace Spells

variable {buckets : Buckets} {nodes : Nodes α} {sequences : Nat → List SlotId} {count : Nat}
  {slot : SlotId}

/-- The chains of other counts are beside slots that are in none of their sequences. -/
theorem beside (spells : buckets.Spells nodes sequences) {slots : List SlotId}
    (apart : ∀ other, other ≠ count → slots.Disjoint (sequences other)) :
    Chain.Beside (buckets.besides count) nodes slots := by
  intro chain member
  obtain ⟨⟨other, chain⟩, here, rfl⟩ := List.mem_map.mp member
  obtain ⟨listed, distinct⟩ := List.mem_filter.mp here
  have found := Std.TreeMap.mem_toList_iff_getElem?_eq_some.mp listed
  exact ⟨sequences other, spells.spells_of_getElem? found, apart other (of_decide_eq_true distinct)⟩

/-- The chains of other counts are beside the sequence of a count. -/
theorem beside_own (spells : buckets.Spells nodes sequences) :
    Chain.Beside (buckets.besides count) nodes (sequences count) :=
  spells.beside fun _ distinct => spells.disjoint distinct.symm

/-- A slot that is in no bucket can be linked into any. -/
theorem attachChecked_eq (spells : buckets.Spells nodes sequences)
    (live : nodes.isLive slot = true) (detached : ∀ other, slot ∉ sequences other) :
    buckets.attachChecked nodes slot count = .ok (buckets.attach nodes slot count) := by
  have beside : Chain.Beside (buckets.besides count) nodes [slot] :=
    spells.beside fun other _ => List.singleton_disjoint.mpr (detached other)
  rw [attachChecked, (spells.chain count).attachChecked_eq live (detached count) beside]
  rfl

/-- A slot can be unlinked from the bucket of its count. -/
theorem detachChecked_eq (spells : buckets.Spells nodes sequences)
    (member : slot ∈ sequences count) :
    buckets.detachChecked nodes slot count = .ok (buckets.detach nodes slot count) := by
  have nonempty := List.ne_nil_of_mem member
  rw [detachChecked, demand_bind (spells.getElem?_eq nonempty),
    (spells.chain count).detachChecked_eq member spells.beside_own, spells.detach_eq nonempty]
  rfl

/-- A slot can be moved from the bucket of its count to any other, or within it. -/
theorem promoteChecked_eq (spells : buckets.Spells nodes sequences) {old : Nat}
    (member : slot ∈ sequences old) (new : Nat) :
    buckets.promoteChecked nodes slot old new = .ok (buckets.promote nodes slot old new) := by
  have found := spells.getElem?_eq (List.ne_nil_of_mem member)
  rw [promoteChecked, Buckets.promote]
  split
  · rw [demand_bind found, found,
      (spells.chain old).moveToNewestChecked_eq member spells.beside_own]
    rfl
  · obtain ⟨left, right, split⟩ := List.append_of_mem member
    have live : (buckets.detach nodes slot old).2.isLive slot = true := by
      rw [Arena.isLive, (sameValues_detach buckets nodes slot old).isSome_get?_eq]
      exact (spells.chain old).isLive member
    rw [spells.detachChecked_eq member, ok_bind]
    exact (spells.detach split).attachChecked_eq live (spells.not_mem_update split)

/-- A value can always be added. -/
theorem addChecked_eq (wellFormed : Arena.WellFormed nodes)
    (spells : buckets.Spells nodes sequences) (count : Nat) (value : α) :
    buckets.addChecked nodes count value = .ok (buckets.add nodes count value) := by
  have beside : Chain.Beside (buckets.besides count) nodes [] :=
    spells.beside fun _ _ => List.disjoint_nil_left _
  rw [addChecked, (spells.chain count).addChecked_eq wellFormed beside]
  rfl

/-- A slot of the bucket of a count can be given up. -/
theorem removeChecked_eq (wellFormed : Arena.WellFormed nodes)
    (spells : buckets.Spells nodes sequences) (member : slot ∈ sequences count) {value : α}
    (held : nodes.value? slot = some value) :
    buckets.removeChecked nodes slot count =
      .ok (value, (buckets.remove nodes slot count).2) := by
  have same := sameValues_detach buckets nodes slot count
  have kept : (buckets.detach nodes slot count).2.value? slot = some value :=
    (same.value?_eq slot).trans held
  obtain ⟨node, here, rfl⟩ := Option.map_eq_some_iff.mp kept
  rw [removeChecked, spells.detachChecked_eq member, ok_bind]
  dsimp only
  rw [(same.wellFormed wellFormed).removeChecked_eq here]
  rfl

/-- If there are buckets, the lowest leads to its oldest node. -/
theorem lowestChecked_eq (spells : buckets.Spells nodes sequences) :
    buckets.lowestChecked = .ok buckets.lowest? := by
  rw [lowestChecked, lowest?]
  cases lowest : buckets.chains.minKey? with
  | none => rfl
  | some count =>
    have oldest := List.getLast?_eq_some_getLast (spells.ne_nil_of_minKey? lowest)
    rw [← (spells.chain count).oldest_eq] at oldest
    exact (demand_bind oldest _).trans (congrArg Except.ok oldest.symm)

/-- If there are buckets, the oldest node of the lowest can be removed. -/
theorem popLowestChecked_eq (wellFormed : Arena.WellFormed nodes)
    (spells : buckets.Spells nodes sequences) :
    buckets.popLowestChecked nodes = .ok (buckets.popLowest nodes) := by
  rw [popLowestChecked, popLowest]
  cases lowest : buckets.chains.minKey? with
  | none => rfl
  | some count =>
    have counted : 0 < (buckets.chain count).length := by
      rw [(spells.chain count).length_eq]
      exact List.length_pos_iff.mpr (spells.ne_nil_of_minKey? lowest)
    dsimp only
    rw [check_bind counted,
      (spells.chain count).removeOldestChecked_eq wellFormed spells.beside_own]
    rfl

/-- No walk through the buckets meets a fault. -/
theorem valuesChecked_eq (spells : buckets.Spells nodes sequences) :
    buckets.valuesChecked nodes = .ok (buckets.values nodes) := by
  have walked : ∀ bucket ∈ buckets.chains.toList,
      bucket.2.valuesChecked nodes = .ok (bucket.2.values nodes) := by
    intro bucket member
    have found := Std.TreeMap.mem_toList_iff_getElem?_eq_some.mp
      (show (bucket.1, bucket.2) ∈ buckets.chains.toList from member)
    exact (spells.spells_of_getElem? found).valuesChecked_eq
  rw [valuesChecked, mapM_eq_ok walked, ok_bind, values, List.flatMap_def]
  rfl

end Spells

end Buckets

namespace Ranking

variable {ranking : Ranking} {rank old new : Rank} {slot : SlotId}

/-- Lists a slot under a rank that is not taken. -/
def insertChecked (ranking : Ranking) (rank : Rank) (slot : SlotId) : Except Fault Ranking := do
  check (ranking.ranks[rank]? = none) .takenRank
  return ranking.insert rank slot

/-- Drops a rank that is there. -/
def eraseChecked (ranking : Ranking) (rank : Rank) : Except Fault Ranking := do
  let _ ← demand .missingRank ranking.ranks[rank]?
  return ranking.erase rank

/-- Moves a slot from its old rank, which must be there, to a new one, which must not. -/
def rerankChecked (ranking : Ranking) (old new : Rank) : Except Fault Ranking :=
  if old = new then return ranking
  else do
    let slot ← demand .missingRank ranking.ranks[old]?
    (ranking.erase old).insertChecked new slot

/-- A slot can be listed under a rank that is not taken. -/
theorem insertChecked_eq (fresh : ranking.ranks[rank]? = none) (slot : SlotId) :
    ranking.insertChecked rank slot = .ok (ranking.insert rank slot) :=
  check_bind fresh _

/-- A rank that is there can be dropped. -/
theorem eraseChecked_eq (listed : ranking.ranks[rank]? = some slot) :
    ranking.eraseChecked rank = .ok (ranking.erase rank) :=
  demand_bind listed _

/-- A listed slot can be moved to a rank that is not taken. -/
theorem rerankChecked_eq (listed : ranking.ranks[old]? = some slot)
    (fresh : old ≠ new → ranking.ranks[new]? = none) :
    ranking.rerankChecked old new = .ok (ranking.rerank old new) := by
  rw [rerankChecked, rerank]
  split
  · rfl
  · next distinct =>
    have erased : (ranking.erase old).ranks[new]? = none := by
      refine Std.TreeMap.getElem?_erase.trans ?_
      rw [fresh distinct, ite_self]
    rw [demand_bind listed, insertChecked_eq erased, listed]

end Ranking

end EvictionCache
