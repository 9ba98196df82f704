import EvictionCache.Proofs.Frequency.Sorted
import EvictionCache.Proofs.Order
import EvictionCache.Slot.Lemmas
import EvictionCache.Store.Ranked

/-!
# Laws of entries in order of rank

A ranked store lists its entries lowest rank first (`RankedStore.Lists`). The ranking repeats
what the entries carry, so it must hold each of their ranks and no other; that no rank is ever
lost to another entry rests on the sequence numbers, which differ from entry to entry and are
below the next one. An access gives an entry the place of its new rank.
-/
namespace EvictionCache

namespace Ranking

variable {κ ν : Type} {ranking : Ranking} {listing other : Listing (Entry κ ν Rank)}
  {slot : SlotId} {entry : Entry κ ν Rank}

/-- A ranking holds the ranks of the entries listed and no others. -/
def Repeats (ranking : Ranking) (listing : Listing (Entry κ ν Rank)) : Prop :=
  ∀ rank slot, ranking.ranks[rank]? = some slot ↔
    ∃ entry, (slot, entry) ∈ listing ∧ entry.metadata = rank

/-- Between two rankings a slot got a rank that no other slot had, as its only one, and every
other slot kept what it had. -/
structure Relists (before after : Ranking) (slot : SlotId) (rank : Rank) : Prop where
  /-- The rank was free, or the slot had it already. -/
  unclaimed : ∀ other, before.ranks[rank]? = some other → other = slot
  /-- The slot has the rank and no other. -/
  own : ∀ place : Rank, after.ranks[place]? = some slot ↔ place = rank
  /-- No other slot gained or lost a rank. -/
  kept : ∀ (place : Rank) (other : SlotId), other ≠ slot →
    (after.ranks[place]? = some other ↔ before.ranks[place]? = some other)

/-- Moving a listed slot to another rank puts it there, vacates the old rank and keeps the
slots of all others; nothing is lost when both ranks are the same. -/
theorem getElem?_rerank {old : Rank} (listed : ranking.ranks[old]? = some slot)
    (new rank : Rank) : (ranking.rerank old new).ranks[rank]? =
      ((ranking.erase old).insert new slot).ranks[rank]? := by
  rw [rerank]
  split
  · next same =>
    subst same
    simp only [insert, erase, Std.TreeMap.getElem?_insert, Std.TreeMap.getElem?_erase,
      Std.LawfulEqCmp.compare_eq_iff_eq]
    split
    · next here => rw [← here, listed]
    · rfl
  · rw [listed]

namespace Repeats

/-- The order of the listing does not matter. -/
theorem perm (repeats : ranking.Repeats listing) (same : other.Perm listing) :
    ranking.Repeats other := by
  intro rank slot
  simp only [same.mem_iff]
  exact repeats rank slot

/-- A rank that no entry had is that of the entry added. -/
theorem insert (repeats : ranking.Repeats listing)
    (fresh : ∀ cell ∈ listing, cell.2.metadata ≠ entry.metadata) (slot : SlotId) :
    (ranking.insert entry.metadata slot).Repeats ((slot, entry) :: listing) := by
  intro rank other
  refine (congrArg (· = some other) Std.TreeMap.getElem?_insert).to_iff.trans ?_
  simp only [List.mem_cons, Std.LawfulEqCmp.compare_eq_iff_eq]
  split
  · next new =>
    constructor
    · intro same
      exact ⟨entry, .inl (by rw [Option.some.inj same]), new⟩
    · rintro ⟨held, here | here, carried⟩
      · rw [(Prod.mk.inj here).1]
      · exact absurd (carried.trans new.symm) (fresh _ here)
  · next old =>
    rw [repeats rank other]
    constructor
    · rintro ⟨held, here, carried⟩
      exact ⟨held, .inr here, carried⟩
    · rintro ⟨held, here | here, carried⟩
      · exact absurd ((congrArg Entry.metadata (Prod.mk.inj here).2).symm.trans carried) old
      · exact ⟨held, here, carried⟩

/-- Erasing a rank takes out the slot that had it, and no other. -/
theorem erase (repeats : ranking.Repeats listing)
    (own : ∀ cell ∈ listing, cell.2.metadata = entry.metadata ↔ cell.1 = slot) :
    (ranking.erase entry.metadata).Repeats (listing.without slot) := by
  intro rank other
  refine (congrArg (· = some other) Std.TreeMap.getElem?_erase).to_iff.trans ?_
  simp only [Listing.mem_without, Std.LawfulEqCmp.compare_eq_iff_eq]
  split
  · next gone =>
    refine iff_of_false (by simp) ?_
    rintro ⟨held, ⟨here, apart⟩, carried⟩
    exact apart ((own _ here).mp (carried.trans gone.symm))
  · next kept =>
    rw [repeats rank other]
    constructor
    · rintro ⟨held, here, carried⟩
      refine ⟨held, ⟨here, fun same => ?_⟩, carried⟩
      exact kept (((own _ here).mpr same).symm.trans carried)
    · rintro ⟨held, ⟨here, _⟩, carried⟩
      exact ⟨held, here, carried⟩

/-- When the cell of a slot is exchanged for one whose rank no other cell has, no rank is lost. -/
theorem relists {after : Ranking} (repeats : ranking.Repeats listing)
    (renewed : after.Repeats ((slot, entry) :: listing.without slot))
    (apart : ∀ cell ∈ listing.without slot, cell.2.metadata ≠ entry.metadata) :
    ranking.Relists after slot entry.metadata where
  unclaimed other found := by
    obtain ⟨held, member, same⟩ := (repeats _ _).mp found
    by_contra distinct
    exact apart (other, held) (Listing.mem_without.mpr ⟨member, distinct⟩) same
  own place := by
    rw [renewed place slot]
    constructor
    · rintro ⟨held, here, rfl⟩
      rcases List.mem_cons.mp here with same | here
      · rw [(Prod.mk.inj same).2]
      · exact absurd rfl (Listing.mem_without.mp here).2
    · rintro rfl
      exact ⟨entry, List.mem_cons_self, rfl⟩
  kept place other distinct := by
    rw [renewed place other, repeats place other]
    refine exists_congr fun held => and_congr_left fun _ => ?_
    simp [distinct]

end Repeats

end Ranking

/-- Ranks compare by count, and at equal counts by sequence number. -/
theorem Rank.compare_eq_lt_iff {left right : Rank} :
    compare left right = .lt ↔ Policy.Before .lfu left right := by
  change (compare left.frequency right.frequency).then (compare left.sequence right.sequence) =
    .lt ↔ _
  rw [Ordering.then_eq_lt, Nat.compare_eq_lt, Nat.compare_eq_eq, Nat.compare_eq_lt]
  rfl

namespace RankedStore

variable {κ ν : Type}

/-- An access gives no sequence number. -/
@[simp] theorem nextSequence_touch (store : RankedStore κ ν) (slot : SlotId) :
    (store.touch slot).nextSequence = store.nextSequence := by
  rw [touch]
  split <;> rfl

/-- Removing an entry gives no sequence number. -/
@[simp] theorem nextSequence_remove (store : RankedStore κ ν) (slot : SlotId) :
    (store.remove slot).2.nextSequence = store.nextSequence := by
  rw [remove]
  split <;> rfl

/-- A store lists its entries lowest rank first. -/
structure Lists (store : RankedStore κ ν) (listing : Listing (Entry κ ν Rank)) : Prop where
  /-- The arena is well formed. -/
  wellFormed : store.slots.WellFormed
  /-- Exactly the occupied slots are listed. -/
  covers : listing.Covers store.entry?
  /-- They are listed in the order of eviction. -/
  ordered : Policy.Ordered .lfu (listing.map Prod.snd)
  /-- The ranking holds the ranks of the entries and no others. -/
  ranked : store.ranking.Repeats listing
  /-- No sequence number was given twice. -/
  sequences : (listing.map fun cell => cell.2.metadata.sequence).Nodup
  /-- The next sequence number was not given yet. -/
  next : ∀ cell ∈ listing, cell.2.metadata.sequence < store.nextSequence

namespace Lists

variable {store : RankedStore κ ν} {listing : Listing (Entry κ ν Rank)} {slot : SlotId}
  {entry : Entry κ ν Rank}

/-- A sequence number tells the slot of its entry. -/
theorem slot_eq (lists : store.Lists listing) {left right : SlotId × Entry κ ν Rank}
    (one : left ∈ listing) (two : right ∈ listing)
    (same : left.2.metadata.sequence = right.2.metadata.sequence) : left = right :=
  List.inj_on_of_nodup_map lists.sequences one two same

/-- The ranks of a listing increase strictly. -/
theorem strictlySorted (lists : store.Lists listing) :
    StrictlySorted (listing.map fun cell => (cell.2.metadata, cell.1)) := by
  have distinct := List.pairwise_map.mp lists.sequences
  have ordered := Policy.ordered_map_snd.mp lists.ordered
  refine List.pairwise_map.mpr ((ordered.and distinct).imp fun {left right} both => ?_)
  obtain ⟨later, apart⟩ := both
  rw [Rank.compare_eq_lt_iff]
  simp only [Policy.Before] at later ⊢
  omega

/-- The ranking lists the slots of the listing under their ranks. -/
theorem toList_eq (lists : store.Lists listing) :
    store.ranking.ranks.toList = listing.map fun cell => (cell.2.metadata, cell.1) := by
  refine toList_eq_of_mem_iff lists.strictlySorted fun rank slot => ?_
  rw [lists.ranked rank slot]
  simp only [List.mem_map, Prod.mk.injEq, Prod.exists]
  constructor
  · rintro ⟨slot, entry, member, rfl, rfl⟩
    exact ⟨entry, member, rfl⟩
  · rintro ⟨entry, member, rfl⟩
    exact ⟨slot, entry, member, rfl, rfl⟩

/-- The entries are listed in the order of eviction. -/
theorem entries_eq (lists : store.Lists listing) : store.entries = listing.map Prod.snd := by
  rw [entries, Ranking.slots, lists.toList_eq, List.map_map]
  exact lists.covers.filterMap_names

/-- The lowest rank is that of the first entry listed. -/
theorem minKey?_eq (lists : store.Lists listing) :
    store.ranking.ranks.minKey? = listing.head?.map fun cell => cell.2.metadata := by
  rw [minKey?_eq_head?, lists.toList_eq, List.head?_map, Option.map_map]
  rfl

/-- The rank of a listed entry leads to its slot. -/
theorem getElem?_eq (lists : store.Lists listing) (member : (slot, entry) ∈ listing) :
    store.ranking.ranks[entry.metadata]? = some slot :=
  (lists.ranked ..).mpr ⟨entry, member, rfl⟩

/-- The first entry is the first listed. -/
theorem first?_eq (lists : store.Lists listing) : store.first? = listing.head?.map Prod.fst := by
  rw [first?, Ranking.first?, lists.minKey?_eq]
  cases listing with
  | nil => rfl
  | cons cell rest => exact lists.getElem?_eq List.mem_cons_self

end Lists

/-- A store without entries lists nothing, whatever its next sequence number. -/
theorem lists_nil {store : RankedStore κ ν} (slots : store.slots = .empty)
    (ranking : store.ranking = .empty) : store.Lists [] where
  wellFormed := slots ▸ Arena.wellFormed_empty
  covers := .nil fun slot => by unfold entry?; rw [slots]; rfl
  ordered := List.Pairwise.nil
  ranked rank slot := by simp [ranking, Ranking.empty]
  sequences := List.nodup_nil
  next := by simp

namespace Lists

variable {store : RankedStore κ ν} {listing : Listing (Entry κ ν Rank)} {slot : SlotId}
  {entry : Entry κ ν Rank}

/-- Replacing a value changes no order. -/
theorem setValue (lists : store.Lists listing) (slot : SlotId) (value : ν) :
    (store.setValue slot value).Lists (listing.mapAt slot fun entry => entry.withValue value) where
  wellFormed := lists.wellFormed.modify slot _
  covers := lists.covers.mapAt fun other => Arena.get?_modify store.slots slot other _
  ordered := by
    refine lists.ordered.congr ?_
    rw [List.map_map, List.map_map]
    exact listing.map_mapAt slot _ Entry.metadata fun _ => rfl
  ranked rank other := by
    refine (lists.ranked rank other).trans ?_
    simp only [Listing.mem_mapAt]
    constructor
    · rintro ⟨entry, member, rfl⟩
      refine ⟨_, ⟨entry, member, rfl⟩, ?_⟩
      split <;> rfl
    · rintro ⟨_, ⟨entry, member, rfl⟩, rfl⟩
      refine ⟨entry, member, ?_⟩
      split <;> rfl
  sequences := by
    rw [listing.map_mapAt slot (fun entry => entry.withValue value)
      (fun entry => entry.metadata.sequence) fun _ => rfl]
    exact lists.sequences
  next := by
    rintro ⟨other, _⟩ member
    obtain ⟨entry, listed, rfl⟩ := Listing.mem_mapAt.mp member
    have below := lists.next (other, entry) listed
    dsimp only
    split <;> exact below

/-- No other entry carries the sequence number of an entry. -/
theorem sequence_ne (lists : store.Lists listing) (member : (slot, entry) ∈ listing)
    {other : SlotId × Entry κ ν Rank} (here : other ∈ listing.without slot) :
    other.2.metadata.sequence ≠ entry.metadata.sequence := by
  obtain ⟨listed, apart⟩ := Listing.mem_without.mp here
  exact fun same => apart (congrArg Prod.fst (lists.slot_eq listed member same))

/-- No other entry has the rank that an entry gets by an access. -/
theorem metadata_ne_increment (lists : store.Lists listing) (member : (slot, entry) ∈ listing)
    {other : SlotId × Entry κ ν Rank} (here : other ∈ listing.without slot) :
    other.2.metadata ≠ entry.metadata.increment := by
  intro same
  have sequences : other.2.metadata.sequence = entry.metadata.increment.sequence :=
    congrArg Rank.sequence same
  exact lists.sequence_ne member here sequences

/-- The rank of an entry tells its slot. -/
theorem metadata_eq_iff (lists : store.Lists listing) (member : (slot, entry) ∈ listing)
    (cell : SlotId × Entry κ ν Rank) (here : cell ∈ listing) :
    cell.2.metadata = entry.metadata ↔ cell.1 = slot := by
  constructor
  · intro same
    exact congrArg Prod.fst (lists.slot_eq here member (congrArg Rank.sequence same))
  · rintro rfl
    exact congrArg Entry.metadata (lists.covers.value_eq here member)

/-- An access gives the entry the place of its new rank. -/
theorem touch (lists : store.Lists listing) (member : (slot, entry) ∈ listing) :
    (store.touch slot).Lists (Policy.placeCell .lfu
      (slot, entry.withMetadata entry.metadata.increment) (listing.without slot)) := by
  have held := (lists.covers.mem_iff slot entry).mp member
  have listed := lists.getElem?_eq member
  have placed : (Policy.placeCell .lfu (slot, entry.withMetadata entry.metadata.increment)
      (listing.without slot)).Perm _ := Policy.placeCell_perm ..
  obtain ⟨before, after, whole, rest⟩ := lists.covers.exists_split member
  rw [RankedStore.touch, held]
  refine ⟨lists.wellFormed.modify slot _, ?_, ?_, ?_, ?_, ?_⟩
  · refine (lists.covers.replace fun other => ?_).perm placed
    refine (Arena.get?_modify store.slots slot other _).trans ?_
    rw [show store.slots.get? slot = some entry from held]
    rfl
  · rw [Policy.map_snd_placeCell]
    exact Policy.Ordered.place (lists.ordered.sublist ((listing.without_sublist slot).map _)) _
  · have apart : ∀ cell ∈ listing.without slot,
        cell.2.metadata ≠ (entry.withMetadata entry.metadata.increment).metadata :=
      fun cell here => lists.metadata_ne_increment member here
    -- The new rank may be the old one, which is free again once it is erased.
    have erased := lists.ranked.erase (lists.metadata_eq_iff member)
    have moved := (erased.insert apart slot).perm placed
    intro rank other
    rw [Ranking.getElem?_rerank listed]
    exact moved rank other
  · have kept : ((Policy.placeCell .lfu (slot, entry.withMetadata entry.metadata.increment)
        (listing.without slot)).map fun cell => cell.2.metadata.sequence).Perm
          (listing.map fun cell => cell.2.metadata.sequence) := by
      refine (placed.map _).trans ?_
      rw [rest, whole, List.map_cons, List.map_append, List.map_append, List.map_cons]
      exact List.perm_middle.symm
    exact kept.nodup_iff.mpr lists.sequences
  · intro cell here
    rcases List.mem_cons.mp (placed.mem_iff.mp here) with rfl | here
    · have below := lists.next (slot, entry) member
      exact below
    · exact lists.next cell (Listing.mem_without.mp here).1

/-- A new entry takes the place of its rank, in a slot that was vacant. -/
theorem add (lists : store.Lists listing) (key : κ) (value : ν) :
    (store.add key value).2.Lists (Policy.placeCell .lfu
      ((store.add key value).1, ⟨key, value, .initial store.nextSequence⟩) listing) ∧
      store.entry? (store.add key value).1 = none := by
  have vacant := Arena.get?_insert_handle lists.wellFormed
    (⟨key, value, .initial store.nextSequence⟩ : Entry κ ν Rank)
  have placed : (Policy.placeCell .lfu
      ((store.add key value).1, ⟨key, value, .initial store.nextSequence⟩) listing).Perm _ :=
    Policy.placeCell_perm ..
  have fresh : ∀ cell ∈ listing, cell.2.metadata.sequence ≠ store.nextSequence :=
    fun cell here => Nat.ne_of_lt (lists.next cell here)
  refine ⟨⟨lists.wellFormed.insert _, ?_, ?_, ?_, ?_, ?_⟩, vacant⟩
  · exact (lists.covers.cons vacant fun other =>
      Arena.get?_insert lists.wellFormed _ other).perm placed
  · rw [Policy.map_snd_placeCell]
    exact Policy.Ordered.place lists.ordered _
  · exact (lists.ranked.insert (fun cell here same =>
      fresh cell here (congrArg Rank.sequence same)) _).perm placed
  · refine (placed.map _).nodup_iff.mpr (List.nodup_cons.mpr ⟨?_, lists.sequences⟩)
    intro repeated
    obtain ⟨cell, here, same⟩ := List.mem_map.mp repeated
    exact fresh cell here same
  · intro cell here
    rcases List.mem_cons.mp (placed.mem_iff.mp here) with rfl | here
    · exact Nat.lt_succ_self _
    · exact Nat.lt_succ_of_lt (lists.next cell here)

/-- An access to an entry loses no rank. -/
theorem relists_touch (lists : store.Lists listing) (member : (slot, entry) ∈ listing) :
    store.ranking.Relists (store.touch slot).ranking slot entry.metadata.increment := by
  have placed : (Policy.placeCell .lfu (slot, entry.withMetadata entry.metadata.increment)
      (listing.without slot)).Perm _ := Policy.placeCell_perm ..
  have renewed := (lists.touch member).ranked.perm placed.symm
  exact lists.ranked.relists renewed fun cell here => lists.metadata_ne_increment member here

/-- A vacant slot has no rank. -/
theorem ranks_ne_of_vacant (lists : store.Lists listing) (vacant : store.entry? slot = none)
    (rank : Rank) : store.ranking.ranks[rank]? ≠ some slot := by
  intro listed
  obtain ⟨entry, member, _⟩ := (lists.ranked rank slot).mp listed
  rw [(lists.covers.mem_iff slot entry).mp member] at vacant
  cases vacant

/-- A new entry takes no rank from another. -/
theorem relists_add (lists : store.Lists listing) (key : κ) (value : ν) :
    store.ranking.Relists (store.add key value).2.ranking (store.add key value).1
      (.initial store.nextSequence) := by
  obtain ⟨added, vacant⟩ := lists.add key value
  have alone : listing.without (store.add key value).1 = listing := by
    apply Listing.without_eq_self
    rw [← lists.covers.isSome_iff, vacant]
    exact Bool.false_ne_true
  have placed : (Policy.placeCell .lfu
      ((store.add key value).1, ⟨key, value, .initial store.nextSequence⟩) listing).Perm _ :=
    Policy.placeCell_perm ..
  have renewed := added.ranked.perm placed.symm
  rw [← alone] at renewed
  refine lists.ranked.relists renewed fun cell here same => ?_
  rw [alone] at here
  exact Nat.ne_of_lt (lists.next cell here) (congrArg Rank.sequence same)

/-- The slot of a listed entry holds it until it is given up. -/
theorem arena_remove (lists : store.Lists listing) (member : (slot, entry) ∈ listing) :
    ∃ slots, store.slots.remove slot = (some entry, slots) := by
  refine ⟨_, Prod.ext ?_ rfl⟩
  rw [Arena.remove_answer]
  exact (lists.covers.mem_iff slot entry).mp member

/-- Removing an entry takes it out of the listing. -/
theorem remove (lists : store.Lists listing) (member : (slot, entry) ∈ listing) :
    (store.remove slot).1 = some entry ∧ (store.remove slot).2.Lists (listing.without slot) := by
  obtain ⟨slots, removed⟩ := lists.arena_remove member
  have kept := listing.without_sublist slot
  rw [RankedStore.remove, removed]
  obtain rfl : (store.slots.remove slot).2 = slots := congrArg Prod.snd removed
  refine ⟨rfl, lists.wellFormed.remove slot, ?_, ?_, ?_, ?_, ?_⟩
  · exact lists.covers.without fun other => Arena.get?_remove store.slots slot other
  · exact lists.ordered.sublist (kept.map _)
  · exact lists.ranked.erase (lists.metadata_eq_iff member)
  · exact lists.sequences.sublist (kept.map _)
  · exact fun cell here => lists.next cell (Listing.mem_without.mp here).1

/-- There is nothing to evict from a store that lists nothing. -/
theorem popFirst_nil (lists : store.Lists []) : store.popFirst = (none, store) := by
  rw [popFirst, Ranking.popFirst, lists.minKey?_eq]
  rfl

/-- Evicting takes the first entry out of the listing. -/
theorem popFirst_cons (lists : store.Lists ((slot, entry) :: listing)) :
    store.popFirst = store.remove slot := by
  have member : (slot, entry) ∈ (slot, entry) :: listing := List.mem_cons_self
  obtain ⟨slots, removed⟩ := lists.arena_remove member
  rw [popFirst, Ranking.popFirst, lists.minKey?_eq, RankedStore.remove, removed]
  simp only [List.head?_cons, Option.map_some, lists.getElem?_eq member, removed]

end Lists

end RankedStore

end EvictionCache
