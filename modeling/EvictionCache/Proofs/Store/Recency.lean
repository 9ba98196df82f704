import EvictionCache.Proofs.Listing
import EvictionCache.Recency.Lemmas
import EvictionCache.Store.Recency

/-!
# Laws of entries in order of use

A store that evicts by recency lists its entries least recently used first
(`RecencyStore.Lists`): its chain spells their slots, newest first, and no other slot is
occupied. An access moves an entry to the end of the listing, a new entry is added at the end,
and the first entry is the one that `popFirst` removes.
-/
namespace EvictionCache.RecencyStore

variable {κ ν : Type}

/-- A store lists its entries least recently used first. -/
structure Lists (store : RecencyStore κ ν) (listing : Listing (Entry κ ν Unit)) : Prop where
  /-- The arena is well formed. -/
  wellFormed : Arena.WellFormed store.nodes
  /-- Exactly the occupied slots are listed. -/
  covers : listing.Covers store.entry?
  /-- The chain links them in this order. -/
  spells : store.chain.Spells store.nodes (listing.map Prod.fst).reverse

/-- The slots of a listing around one of its cells, newest first. -/
theorem reverse_slots (before after : Listing (Entry κ ν Unit)) (slot : SlotId)
    (entry : Entry κ ν Unit) :
    ((before ++ (slot, entry) :: after).map Prod.fst).reverse =
      (after.map Prod.fst).reverse ++ slot :: (before.map Prod.fst).reverse := by
  simp

/-- A store without entries lists nothing. -/
theorem lists_empty : (empty : RecencyStore κ ν).Lists [] where
  wellFormed := Arena.wellFormed_empty
  covers := .nil fun _ => rfl
  spells := Chain.spells_empty _

namespace Lists

variable {store : RecencyStore κ ν} {listing : Listing (Entry κ ν Unit)} {slot : SlotId}
  {entry : Entry κ ν Unit}

/-- The entries are listed in the order of eviction. -/
theorem entries_eq (lists : store.Lists listing) : store.entries = listing.map Prod.snd := by
  rw [entries, lists.spells.values_eq, List.reverse_reverse]
  exact lists.covers.filterMap_names

/-- The first entry is the first listed. -/
theorem first?_eq (lists : store.Lists listing) : store.first? = listing.head?.map Prod.fst := by
  rw [first?, lists.spells.oldest_eq, List.getLast?_reverse, List.head?_map]

/-- Replacing a value changes no order. -/
theorem setValue (lists : store.Lists listing) (slot : SlotId) (value : ν) :
    (store.setValue slot value).Lists (listing.mapAt slot fun entry => entry.withValue value) where
  wellFormed := lists.wellFormed.modify slot _
  covers := lists.covers.mapAt fun other => Nodes.value?_modifyValue store.nodes slot other _
  spells := by
    rw [Listing.map_fst_mapAt]
    exact lists.spells.modifyValue slot fun entry => entry.withValue value

/-- An access moves the entry to the end. -/
theorem touch (lists : store.Lists listing) (member : (slot, entry) ∈ listing) :
    (store.touch slot).Lists (listing.without slot ++ [(slot, entry)]) := by
  obtain ⟨before, after, rfl, rest⟩ := lists.covers.exists_split member
  have same := Chain.sameValues_moveToNewest store.chain store.nodes slot
  have spells := lists.spells
  rw [reverse_slots] at spells
  refine ⟨same.wellFormed lists.wellFormed, ?_, ?_⟩
  · have kept : Listing.Covers _ (RecencyStore.entry? (store.touch slot)) :=
      lists.covers.congr same.value?_eq
    rw [rest, List.append_assoc]
    exact kept.perm (List.perm_append_comm.append_left before)
  · have moved : ((before ++ after ++ [(slot, entry)]).map Prod.fst).reverse =
        slot :: ((after.map Prod.fst).reverse ++ (before.map Prod.fst).reverse) := by simp
    rw [rest, moved]
    exact spells.moveToNewest

/-- A new entry is added at the end, in a slot that was vacant. -/
theorem add (lists : store.Lists listing) (key : κ) (value : ν) :
    (store.add key value).2.Lists (listing ++ [((store.add key value).1, ⟨key, value, ()⟩)]) ∧
      store.entry? (store.add key value).1 = none := by
  have vacant : store.entry? (store.add key value).1 = none := by
    have handle := Arena.get?_insert_handle lists.wellFormed
      (Node.detached (⟨key, value, ()⟩ : Entry κ ν Unit))
    change (store.nodes.get? (store.nodes.insert (Node.detached _)).1).map Node.value = none
    rw [handle]
    rfl
  refine ⟨⟨Chain.wellFormed_add lists.wellFormed .., ?_, ?_⟩, vacant⟩
  · exact (lists.covers.cons vacant fun other =>
      Chain.value?_add lists.wellFormed store.chain _ other).perm (List.perm_append_singleton ..)
  · rw [List.map_append, List.reverse_append]
    exact lists.spells.add lists.wellFormed _

/-- Removing an entry takes it out of the listing. -/
theorem remove (lists : store.Lists listing) (member : (slot, entry) ∈ listing) :
    (store.remove slot).1 = some entry ∧ (store.remove slot).2.Lists (listing.without slot) := by
  obtain ⟨before, after, rfl, rest⟩ := lists.covers.exists_split member
  have spells := lists.spells
  rw [reverse_slots] at spells
  refine ⟨?_, Chain.wellFormed_remove lists.wellFormed .., ?_, ?_⟩
  · exact (Chain.remove_answer ..).trans ((lists.covers.mem_iff ..).mp member)
  · exact lists.covers.without fun other => Chain.value?_remove store.chain store.nodes slot other
  · rw [rest, List.map_append, List.reverse_append]
    exact spells.remove

/-- There is nothing to evict from a store that lists nothing. -/
theorem popFirst_nil (lists : store.Lists []) : store.popFirst = (none, store) := by
  rw [popFirst, lists.spells.removeOldest_nil]

/-- Evicting takes the first entry out of the listing. -/
theorem popFirst_cons (lists : store.Lists ((slot, entry) :: listing)) :
    store.popFirst = store.remove slot := by
  have spells := lists.spells
  rw [List.map_cons, List.reverse_cons] at spells
  rw [popFirst, spells.removeOldest_concat]
  rfl

end Lists

end EvictionCache.RecencyStore
