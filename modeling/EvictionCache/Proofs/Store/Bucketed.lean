import EvictionCache.Proofs.Frequency.Buckets
import EvictionCache.Proofs.Order
import EvictionCache.Store.Bucketed

/-!
# Laws of entries in buckets of equal count

A bucketed store lists its entries by increasing count, and within a count least recently used
first (`BucketedStore.Lists`): the cells of a count, read from the end, are what the chain of its
bucket spells. An access moves an entry to the end of the next bucket, which is the place that
the order of eviction gives it.
-/
namespace EvictionCache.BucketedStore

open Function (update)

variable {κ ν : Type}

section Bucket

/-- The cells of one count. -/
def bucket (listing : Listing (Entry κ ν AccessCount)) (count : Nat) :
    Listing (Entry κ ν AccessCount) :=
  listing.filter fun cell => cell.2.metadata.frequency = count

/-- The slots of one count, newest first. -/
def slotsOf (listing : Listing (Entry κ ν AccessCount)) (count : Nat) : List SlotId :=
  ((bucket listing count).map Prod.fst).reverse

variable {listing before after : Listing (Entry κ ν AccessCount)} {count : Nat}
  {cell : SlotId × Entry κ ν AccessCount}

@[simp] theorem mem_bucket :
    cell ∈ bucket listing count ↔ cell ∈ listing ∧ cell.2.metadata.frequency = count := by
  simp [bucket]

/-- The slots of a count are those listed with it. -/
theorem mem_slotsOf {slot : SlotId} :
    slot ∈ slotsOf listing count ↔
      ∃ entry, (slot, entry) ∈ listing ∧ entry.metadata.frequency = count := by
  simp [slotsOf]

@[simp] theorem bucket_append :
    bucket (before ++ after) count = bucket before count ++ bucket after count :=
  List.filter_append ..

/-- A cell is in the bucket of its count only. -/
theorem bucket_cons :
    bucket (cell :: listing) count =
      if cell.2.metadata.frequency = count then cell :: bucket listing count
      else bucket listing count := by
  simp [bucket, List.filter_cons]

/-- In a listing in order, a count below all others has no bucket. -/
theorem bucket_eq_nil (above : ∀ cell ∈ listing, count < cell.2.metadata.frequency) :
    bucket listing count = [] := by
  apply List.filter_eq_nil_iff.mpr
  intro cell member
  have here := above cell member
  simp only [decide_eq_true_eq]
  omega

/-- The counts of a listing in order do not decrease. -/
theorem ordered_iff : Policy.Ordered .lfru (listing.map Prod.snd) ↔
    listing.Pairwise fun first second =>
      first.2.metadata.frequency ≤ second.2.metadata.frequency := by
  rw [Policy.ordered_map_snd]
  simp only [Policy.Before, Nat.not_lt]

/-- An entry takes its place at the end of its own bucket and leaves the others as they are. -/
theorem bucket_placeCell (ordered : Policy.Ordered .lfru (listing.map Prod.snd))
    (cell : SlotId × Entry κ ν AccessCount) (count : Nat) :
    bucket (Policy.placeCell .lfru cell listing) count =
      if cell.2.metadata.frequency = count then bucket listing count ++ [cell]
      else bucket listing count := by
  rw [ordered_iff] at ordered
  induction listing with
  | nil => rw [Policy.placeCell, List.orderedInsert_nil, bucket_cons]; rfl
  | cons first rest ih =>
    obtain ⟨head, tail⟩ := List.pairwise_cons.mp ordered
    rw [Policy.placeCell, List.orderedInsert_cons]
    split
    · next before =>
      change cell.2.metadata.frequency < first.2.metadata.frequency at before
      rw [bucket_cons]
      split
      · next own =>
        have nothing : bucket (first :: rest) count = [] := by
          apply bucket_eq_nil
          intro other member
          rcases List.mem_cons.mp member with rfl | member
          · omega
          · have above := head other member
            omega
        rw [nothing, List.nil_append]
      · rfl
    · rw [bucket_cons, ← Policy.placeCell, ih tail, bucket_cons]
      split <;> split <;> rfl

/-- The buckets of a listing in order, lowest count first, make up the listing. -/
theorem flatMap_bucket {counts : List Nat} (ascending : counts.Pairwise (· < ·))
    (ordered : Policy.Ordered .lfru (listing.map Prod.snd))
    (complete : ∀ cell ∈ listing, cell.2.metadata.frequency ∈ counts) :
    counts.flatMap (bucket listing) = listing := by
  rw [ordered_iff] at ordered
  induction listing with
  | nil => exact List.flatMap_eq_nil_iff.mpr fun _ _ => rfl
  | cons first rest ih =>
    obtain ⟨head, tail⟩ := List.pairwise_cons.mp ordered
    have others := ih tail fun cell member => complete cell (List.mem_cons_of_mem _ member)
    obtain ⟨below, above, rfl⟩ := List.append_of_mem (complete first List.mem_cons_self)
    obtain ⟨_, ascending, lower⟩ := List.pairwise_append.mp ascending
    have higher := (List.pairwise_cons.mp ascending).1
    -- Below the count of the first cell there are no cells at all.
    have skipped : below.flatMap (bucket (first :: rest)) = below.flatMap (bucket rest) := by
      apply List.flatMap_congr
      intro count member
      have less := lower count member _ List.mem_cons_self
      rw [bucket_cons, if_neg (Nat.ne_of_gt less)]
    have vacant : below.flatMap (bucket rest) = [] := by
      refine List.flatMap_eq_nil_iff.mpr fun count member => bucket_eq_nil fun cell here => ?_
      have less := lower count member _ List.mem_cons_self
      exact Nat.lt_of_lt_of_le less (head cell here)
    have kept : above.flatMap (bucket (first :: rest)) = above.flatMap (bucket rest) := by
      apply List.flatMap_congr
      intro count member
      rw [bucket_cons, if_neg (Nat.ne_of_lt (higher count member))]
    rw [List.flatMap_append, List.flatMap_cons, vacant, List.nil_append] at others
    rw [List.flatMap_append, List.flatMap_cons, skipped, vacant, kept, bucket_cons, if_pos rfl,
      List.nil_append, List.cons_append, others]

/-- A cell splits the slots of its count into the later ones and the earlier ones. -/
theorem slotsOf_split (before after : Listing (Entry κ ν AccessCount))
    (cell : SlotId × Entry κ ν AccessCount) :
    slotsOf (before ++ cell :: after) cell.2.metadata.frequency =
      slotsOf after cell.2.metadata.frequency ++
        cell.1 :: slotsOf before cell.2.metadata.frequency := by
  simp [slotsOf, bucket_cons]

/-- Leaving a cell out changes the slots of its count only. -/
theorem slotsOf_cut (before after : Listing (Entry κ ν AccessCount))
    (cell : SlotId × Entry κ ν AccessCount) :
    update (slotsOf (before ++ cell :: after)) cell.2.metadata.frequency
        (slotsOf after cell.2.metadata.frequency ++ slotsOf before cell.2.metadata.frequency) =
      slotsOf (before ++ after) := by
  funext count
  rw [Function.update_apply]
  split
  · next own => simp [slotsOf, own]
  · next others => simp [slotsOf, bucket_cons, Ne.symm others]

/-- Placing a cell puts its slot in front of those of its count. -/
theorem slotsOf_placeCell (ordered : Policy.Ordered .lfru (listing.map Prod.snd))
    (cell : SlotId × Entry κ ν AccessCount) :
    slotsOf (Policy.placeCell .lfru cell listing) =
      update (slotsOf listing) cell.2.metadata.frequency
        (cell.1 :: slotsOf listing cell.2.metadata.frequency) := by
  funext count
  rw [slotsOf, bucket_placeCell ordered, Function.update_apply]
  split
  · next own => simp [slotsOf, own]
  · next others => rw [if_neg (Ne.symm others)]; rfl

/-- Replacing a value leaves every slot in its bucket. -/
theorem slotsOf_setValue (listing : Listing (Entry κ ν AccessCount)) (slot : SlotId)
    (value : ν) :
    slotsOf (listing.mapAt slot fun entry => entry.withValue value) = slotsOf listing := by
  funext count
  have kept : ((fun cell : SlotId × Entry κ ν AccessCount =>
      decide (cell.2.metadata.frequency = count)) ∘ fun cell =>
        if cell.1 = slot then (cell.1, cell.2.withValue value) else cell) =
      fun cell => decide (cell.2.metadata.frequency = count) := by
    funext cell
    simp only [Function.comp_apply]
    split <;> rfl
  have named := Listing.map_fst_mapAt (bucket listing count) slot fun entry =>
    entry.withValue value
  rw [slotsOf, bucket, Listing.mapAt, List.filter_map, kept]
  exact congrArg List.reverse named

end Bucket

/-- A store lists its entries by increasing count, and within a count least recently used
first. -/
structure Lists (store : BucketedStore κ ν) (listing : Listing (Entry κ ν AccessCount)) :
    Prop where
  /-- The arena is well formed. -/
  wellFormed : Arena.WellFormed store.nodes
  /-- Exactly the occupied slots are listed. -/
  covers : listing.Covers store.entry?
  /-- They are listed in the order of eviction. -/
  ordered : Policy.Ordered .lfru (listing.map Prod.snd)
  /-- The chain of each count links the slots of that count. -/
  spells : store.buckets.Spells store.nodes (slotsOf listing)

/-- A store without entries lists nothing. -/
theorem lists_empty : (empty : BucketedStore κ ν).Lists [] where
  wellFormed := Arena.wellFormed_empty
  covers := .nil fun _ => rfl
  ordered := List.Pairwise.nil
  spells := {
    chain := fun _ => Chain.spells_empty _
    mem_iff := fun _ => iff_of_false Std.TreeMap.not_mem_emptyc (by simp [slotsOf, bucket])
    disjoint := fun _ => List.disjoint_nil_left _ }

namespace Lists

variable {store : BucketedStore κ ν} {listing : Listing (Entry κ ν AccessCount)}
  {slot : SlotId} {entry : Entry κ ν AccessCount}

/-- The counts with buckets are those of the entries. -/
theorem mem_chains_iff (lists : store.Lists listing) (count : Nat) :
    count ∈ store.buckets.chains ↔ ∃ cell ∈ listing, cell.2.metadata.frequency = count := by
  rw [lists.spells.mem_iff, slotsOf, ne_eq, List.reverse_eq_nil_iff, List.map_eq_nil_iff]
  constructor
  · intro nonempty
    obtain ⟨cell, member⟩ := List.exists_mem_of_ne_nil _ nonempty
    exact ⟨cell, mem_bucket.mp member⟩
  · rintro ⟨cell, member⟩
    exact List.ne_nil_of_mem (mem_bucket.mpr member)

/-- The buckets, lowest count first, make up the listing. -/
theorem flatMap_keys (lists : store.Lists listing) :
    store.buckets.chains.keys.flatMap (bucket listing) = listing := by
  have ascending : store.buckets.chains.keys.Pairwise (· < ·) :=
    Std.TreeMap.ordered_keys.imp Nat.compare_eq_lt.mp
  have complete : ∀ cell ∈ listing, cell.2.metadata.frequency ∈ store.buckets.chains.keys := by
    intro cell member
    rw [Std.TreeMap.mem_keys, lists.mem_chains_iff]
    exact ⟨cell, member, rfl⟩
  exact flatMap_bucket ascending lists.ordered complete

/-- The entries are listed in the order of eviction. -/
theorem entries_eq (lists : store.Lists listing) : store.entries = listing.map Prod.snd := by
  have found : ∀ count, (slotsOf listing count).reverse.filterMap store.nodes.value? =
      (bucket listing count).map Prod.snd := by
    intro count
    rw [slotsOf, List.reverse_reverse, List.filterMap_map,
      show (bucket listing count).map Prod.snd =
        (bucket listing count).filterMap (some ∘ Prod.snd) by simp]
    apply List.filterMap_congr
    intro cell member
    exact (lists.covers.mem_iff cell.1 cell.2).mp (mem_bucket.mp member).1
  rw [entries, lists.spells.values_eq]
  simp only [found]
  rw [← List.map_flatMap, lists.flatMap_keys]

/-- The buckets together have as many nodes as entries are listed. -/
theorem length_eq (lists : store.Lists listing) : store.buckets.length = listing.length := by
  rw [lists.spells.length_eq]
  conv_rhs => rw [← lists.flatMap_keys]
  simp [slotsOf, List.length_flatMap]

/-- The lowest bucket is that of the first entry listed. -/
theorem minKey?_eq (lists : store.Lists listing) :
    store.buckets.chains.minKey? = listing.head?.map fun cell => cell.2.metadata.frequency := by
  cases listing with
  | nil =>
    rw [List.head?_nil, Option.map_none, Std.TreeMap.minKey?_eq_none_iff,
      Std.TreeMap.isEmpty_iff_forall_not_mem]
    intro count member
    obtain ⟨cell, here, _⟩ := (lists.mem_chains_iff count).mp member
    cases here
  | cons first rest =>
    rw [List.head?_cons, Option.map_some, Std.TreeMap.minKey?_eq_some_iff_mem_and_forall]
    refine ⟨(lists.mem_chains_iff _).mpr ⟨first, List.mem_cons_self, rfl⟩, fun count member => ?_⟩
    obtain ⟨cell, here, rfl⟩ := (lists.mem_chains_iff count).mp member
    rw [Nat.isLE_compare]
    rcases List.mem_cons.mp here with rfl | here
    · exact Nat.le_refl _
    · exact (List.pairwise_cons.mp (ordered_iff.mp lists.ordered)).1 cell here

/-- The first entry is the first listed. -/
theorem first?_eq (lists : store.Lists listing) : store.first? = listing.head?.map Prod.fst := by
  rw [first?, lists.spells.lowest?_eq, lists.minKey?_eq]
  cases listing with
  | nil => rfl
  | cons first rest =>
    simp [slotsOf, bucket_cons]

/-- Replacing a value changes no order. -/
theorem setValue (lists : store.Lists listing) (slot : SlotId) (value : ν) :
    (store.setValue slot value).Lists (listing.mapAt slot fun entry => entry.withValue value) where
  wellFormed := lists.wellFormed.modify slot _
  covers := lists.covers.mapAt fun other => Nodes.value?_modifyValue store.nodes slot other _
  ordered := by
    refine lists.ordered.congr ?_
    rw [List.map_map, List.map_map]
    exact listing.map_mapAt slot _ Entry.metadata fun _ => rfl
  spells := by
    rw [slotsOf_setValue]
    exact lists.spells.modifyValue slot fun entry => entry.withValue value

/-- An access moves the entry to the end of the bucket of its new count. -/
theorem touch (lists : store.Lists listing) (member : (slot, entry) ∈ listing) :
    (store.touch slot).Lists (Policy.placeCell .lfru
      (slot, entry.withMetadata entry.metadata.increment) (listing.without slot)) := by
  have held := (lists.covers.mem_iff slot entry).mp member
  have remaining : Policy.Ordered .lfru ((listing.without slot).map Prod.snd) :=
    lists.ordered.sublist ((listing.without_sublist slot).map _)
  have placed : (Policy.placeCell .lfru (slot, entry.withMetadata entry.metadata.increment)
      (listing.without slot)).Perm _ := Policy.placeCell_perm ..
  obtain ⟨before, after, whole, rest⟩ := lists.covers.exists_split member
  rw [BucketedStore.touch, held]
  have counted := lists.spells.modifyValue slot fun held =>
    held.withMetadata entry.metadata.increment
  have same := Buckets.sameValues_promote store.buckets
    (store.nodes.modifyValue slot fun held => held.withMetadata entry.metadata.increment) slot
    entry.metadata.frequency entry.metadata.increment.frequency
  refine ⟨same.wellFormed (lists.wellFormed.modify slot _), ?_, ?_, ?_⟩
  · refine (lists.covers.replace fun other => (same.value?_eq other).trans ?_).perm placed
    rw [Nodes.value?_modifyValue, show store.nodes.value? slot = some entry from held]
    rfl
  · rw [Policy.map_snd_placeCell]
    exact remaining.place _
  · have promoted := counted.promote entry.metadata.increment.frequency
      (whole ▸ slotsOf_split before after (slot, entry))
    rw [slotsOf_placeCell remaining, rest, ← slotsOf_cut before after (slot, entry), ← whole]
    exact promoted

/-- A new entry takes its place at the end of the first bucket, in a slot that was vacant. -/
theorem add (lists : store.Lists listing) (key : κ) (value : ν) :
    (store.add key value).2.Lists (Policy.placeCell .lfru
      ((store.add key value).1, ⟨key, value, .initial⟩) listing) ∧
      store.entry? (store.add key value).1 = none := by
  have vacant : store.entry? (store.add key value).1 = none := by
    have handle := Arena.get?_insert_handle lists.wellFormed
      (Node.detached (⟨key, value, .initial⟩ : Entry κ ν AccessCount))
    change (store.nodes.get? (store.nodes.insert (Node.detached _)).1).map Node.value = none
    rw [handle]
    rfl
  have placed : (Policy.placeCell .lfru
      ((store.add key value).1, ⟨key, value, .initial⟩) listing).Perm _ :=
    Policy.placeCell_perm ..
  refine ⟨⟨Buckets.wellFormed_add lists.wellFormed .., ?_, ?_, ?_⟩, vacant⟩
  · exact (lists.covers.cons vacant fun other =>
      Buckets.value?_add lists.wellFormed store.buckets _ _ other).perm placed
  · rw [Policy.map_snd_placeCell]
    exact lists.ordered.place _
  · rw [slotsOf_placeCell lists.ordered]
    exact lists.spells.add lists.wellFormed _ _

/-- Removing works on the bucket of the entry. -/
theorem remove_eq (lists : store.Lists listing) (member : (slot, entry) ∈ listing) :
    store.remove slot =
      ((store.buckets.remove store.nodes slot entry.metadata.frequency).1,
        ⟨(store.buckets.remove store.nodes slot entry.metadata.frequency).2.2,
          (store.buckets.remove store.nodes slot entry.metadata.frequency).2.1⟩) := by
  rw [BucketedStore.remove, (lists.covers.mem_iff slot entry).mp member]

/-- Removing an entry takes it out of the listing. -/
theorem remove (lists : store.Lists listing) (member : (slot, entry) ∈ listing) :
    (store.remove slot).1 = some entry ∧ (store.remove slot).2.Lists (listing.without slot) := by
  have held := (lists.covers.mem_iff slot entry).mp member
  obtain ⟨before, after, whole, rest⟩ := lists.covers.exists_split member
  rw [lists.remove_eq member]
  refine ⟨(Buckets.remove_answer ..).trans held, Buckets.wellFormed_remove lists.wellFormed ..,
    ?_, ?_, ?_⟩
  · exact lists.covers.without fun other =>
      Buckets.value?_remove store.buckets store.nodes slot other _
  · exact lists.ordered.sublist ((listing.without_sublist slot).map _)
  · rw [rest, ← slotsOf_cut before after (slot, entry), ← whole]
    exact lists.spells.remove (whole ▸ slotsOf_split before after (slot, entry))

/-- There is nothing to evict from a store that lists nothing. -/
theorem popFirst_nil (lists : store.Lists []) : store.popFirst = (none, store) := by
  rw [popFirst, Buckets.popLowest_of_none store.nodes lists.minKey?_eq]

/-- Evicting takes the first entry out of the listing. -/
theorem popFirst_cons (lists : store.Lists ((slot, entry) :: listing)) :
    store.popFirst = store.remove slot := by
  have split := slotsOf_split [] listing (slot, entry)
  rw [lists.remove_eq List.mem_cons_self, popFirst,
    lists.spells.popLowest_eq lists.minKey?_eq split]

end Lists

end EvictionCache.BucketedStore
