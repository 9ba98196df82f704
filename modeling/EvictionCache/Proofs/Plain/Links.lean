import EvictionCache.Proofs.Plain.History
import EvictionCache.Proofs.Queue.Basic

/-!
# Plain caches that keep the history of a queue

A plain cache and a queue are linked by a sound history: its slots are those of the plain cache,
in whatever order, and its entries are those of the queue, in the order of eviction. Each change
to the queue has a change to the plain cache that keeps them linked.
-/
namespace EvictionCache.History

variable {policy : Policy} {κ ν : Type} [BEq κ]

/-- A plain cache and a queue with one history. -/
structure Links (history : History policy κ ν) (plain : PlainCache policy κ ν)
    (queue : Queue policy κ ν) : Prop where
  /-- The history explains the order of the queue. -/
  sound : history.Sound plain.clock queue.fresh
  /-- The plain cache keeps its slots. -/
  slots : (history.map Prod.fst).Perm plain.slots
  /-- The queue keeps its entries. -/
  entries : history.map Prod.snd = queue.entries
  /-- As many entries fit into both. -/
  capacity : plain.capacity = queue.capacity
  /-- A new entry carries a single access. -/
  single : ∀ slot : PlainSlot κ ν, slot.frequency = 1 →
    slot.frequency? policy = policy.frequency? queue.fresh

namespace Links

variable {history : History policy κ ν} {plain : PlainCache policy κ ν}
  {queue : Queue policy κ ν} {cell : PlainSlot κ ν × Entry κ ν policy.Metadata} {key : κ}

/-- There are as many slots as entries. -/
theorem length_eq (links : history.Links plain queue) :
    plain.slots.length = queue.entries.length := by
  rw [← links.slots.length_eq, ← links.entries, List.length_map, List.length_map]

/-- Sorting the slots gives the order of eviction. -/
theorem ordered_eq (links : history.Links plain queue) :
    plain.ordered = history.map Prod.fst :=
  PlainCache.ordered_eq links.slots (List.pairwise_map.mpr links.sound.sorted)

/-- Looking at all slots finds the first entry. -/
theorem first?_eq (links : history.Links plain queue) :
    plain.first? = history.head?.map Prod.fst := by
  rw [PlainCache.first?, PlainSlot.first?_eq_head? links.slots
    (List.pairwise_map.mpr links.sound.sorted), List.head?_map]

/-- What the slots tell is what the entries show, in order. -/
theorem map_ordered {γ : Type} (links : history.Links plain queue) {ofSlot : PlainSlot κ ν → γ}
    {ofEntry : Entry κ ν policy.Metadata → γ}
    (same : ∀ slot entry, slot.TellsOf entry → ofSlot slot = ofEntry entry) :
    plain.ordered.map ofSlot = queue.entries.map ofEntry := by
  rw [links.ordered_eq, ← links.entries]
  exact links.sound.map_eq same

/-- The same values are kept. -/
theorem any_value_eq [BEq ν] (links : history.Links plain queue) (value : ν) :
    (plain.slots.any fun slot => slot.value == value) =
      queue.entries.any fun entry => entry.value == value := by
  have values := links.sound.map_eq fun _ _ tells => tells.value
  calc (plain.slots.any fun slot => slot.value == value)
      = ((history.map Prod.fst).map PlainSlot.value).any (· == value) := by
        rw [List.any_map, links.slots.any_eq]
        rfl
    _ = queue.entries.any fun entry => entry.value == value := by
        rw [values, List.any_map, links.entries]
        rfl

/-- The pair that leaves next is the same. -/
theorem first?_pair (links : history.Links plain queue) :
    plain.first?.map PlainSlot.pair = queue.entries.head?.map Entry.pair := by
  rw [links.first?_eq, ← links.entries]
  cases history with
  | nil => rfl
  | cons cell rest =>
    exact congrArg some (links.sound.tells cell List.mem_cons_self).pair_eq

/-- What is found in the queue is in the history. -/
theorem exists_cell (links : history.Links plain queue) {entry : Entry κ ν policy.Metadata}
    (found : queue.find? key = some entry) :
    ∃ slot, (slot, entry) ∈ history ∧ (entry.key == key) = true := by
  have member := List.mem_of_find?_eq_some found
  have same := List.find?_some (p := fun entry : Entry κ ν policy.Metadata => entry.key == key)
    found
  rw [← links.entries] at member
  obtain ⟨⟨slot, _⟩, here, rfl⟩ := List.mem_map.mp member
  exact ⟨slot, here, same⟩

/-- A key that is nowhere in the queue equals the key of no slot. -/
theorem find?_eq_none (links : history.Links plain queue) (absent : queue.find? key = none) :
    plain.find? key = none := by
  apply List.find?_eq_none.mpr
  intro slot member
  rw [← links.slots.mem_iff] at member
  obtain ⟨cell, here, rfl⟩ := List.mem_map.mp member
  rw [(links.sound.tells cell here).key]
  apply List.find?_eq_none.mp absent
  rw [← links.entries]
  exact List.mem_map.mpr ⟨cell, here, rfl⟩

/-- Deleting the slots of a time of storing leaves the others of the history. -/
theorem slots_deleteStoredAt (links : history.Links plain queue) {others : History policy κ ν}
    (split : history.Perm (cell :: others)) :
    (others.map Prod.fst).Perm (plain.deleteStoredAt cell.1.storedAt).slots := by
  have apart := (split.pairwise_iff fun apart => Ne.symm apart).mp
    (links.sound.apart.imp fun apart => apart.storedAt)
  have kept : (others.map Prod.fst).filter (fun slot => slot.storedAt != cell.1.storedAt) =
      others.map Prod.fst := by
    apply List.filter_eq_self.mpr
    intro slot member
    obtain ⟨other, here, rfl⟩ := List.mem_map.mp member
    exact bne_iff_ne.mpr ((List.pairwise_cons.mp apart).1 other here).symm
  have left := (links.slots.symm.trans (split.map Prod.fst)).filter
    fun slot => slot.storedAt != cell.1.storedAt
  rw [List.map_cons, List.filter_cons_of_neg (by simp), kept] at left
  exact left.symm

/-- Dropping the first entry deletes its slot. -/
theorem dropFirst (links : Links (cell :: history) plain queue) :
    history.Links (plain.deleteStoredAt cell.1.storedAt) queue.dropFirst where
  sound := links.sound.sublist (List.sublist_cons_self _ _)
  slots := links.slots_deleteStoredAt (.refl _)
  entries := by
    rw [Queue.dropFirst, ← links.entries]
    rfl
  capacity := links.capacity
  single := links.single

/-- Removing every entry removes every slot. -/
theorem clear (links : history.Links plain queue) :
    Links [] { plain with slots := [] } queue.clear.state where
  sound := .nil _ _
  slots := .nil
  entries := rfl
  capacity := links.capacity
  single := links.single

/-- The queue without a key keeps the entries of the history without that key. -/
theorem entries_discard (links : history.Links plain queue) (key : κ) :
    (history.filter fun other => !(other.2.key == key)).map Prod.snd =
      (queue.discard key).entries := by
  rw [Queue.discard, ← links.entries, List.filter_map]
  rfl

variable [EquivBEq κ]

/-- A key is found in the same place of the history on both sides. -/
theorem find?_eq_some (links : history.Links plain queue) (member : cell ∈ history)
    (same : (cell.2.key == key) = true) : plain.find? key = some cell.1 := by
  apply find?_eq_some_of_unique
  · rw [← links.slots.mem_iff]
    exact List.mem_map.mpr ⟨cell, member, rfl⟩
  · rw [(links.sound.tells cell member).key]
    exact same
  · intro slot here spelt
    rw [← links.slots.mem_iff] at here
    obtain ⟨other, listed, rfl⟩ := List.mem_map.mp here
    rw [(links.sound.tells other listed).key] at spelt
    rw [links.sound.eq_of_key member listed (PartialEquivBEq.trans same (BEq.symm spelt))]

/-- A key is nowhere on either side, or in one cell of the history. -/
theorem find?_cases (links : history.Links plain queue) (key : κ) :
    (plain.find? key = none ∧ queue.find? key = none) ∨
      ∃ cell ∈ history, (cell.2.key == key) = true ∧ plain.find? key = some cell.1 ∧
        queue.find? key = some cell.2 := by
  cases found : queue.find? key with
  | none => exact .inl ⟨links.find?_eq_none found, rfl⟩
  | some entry =>
    obtain ⟨slot, member, same⟩ := links.exists_cell found
    exact .inr ⟨(slot, entry), member, same, links.find?_eq_some member same, rfl⟩

/-- Discarding a key deletes its slot. -/
theorem discard (links : history.Links plain queue) (member : cell ∈ history)
    (same : (cell.2.key == key) = true) :
    Links (history.filter fun other => !(other.2.key == key))
      (plain.deleteStoredAt cell.1.storedAt) (queue.discard key) where
  sound := links.sound.sublist List.filter_sublist
  slots := links.slots_deleteStoredAt (links.sound.perm_cons_filter member same)
  entries := links.entries_discard key
  capacity := links.capacity
  single := links.single

/-- A new entry joins the queue as its slot is added. -/
theorem join (links : history.Links plain queue) (absent : queue.find? key = none) (value : ν) :
    Links (policy.placeCell
        (⟨key, value, 1, plain.clock, plain.clock⟩, ⟨key, value, queue.fresh⟩) history)
      (plain.addSlot key value) (queue.join key value) := by
  have perm := Policy.placeCell_perm
    ((⟨key, value, 1, plain.clock, plain.clock⟩, ⟨key, value, queue.fresh⟩) :
      PlainSlot κ ν × Entry κ ν policy.Metadata) history
  refine ⟨links.sound.place ⟨rfl, rfl, links.single _ rfl⟩ ?_ (Nat.le_refl _) rfl ?_, ?_, ?_,
    links.capacity, ?_⟩
  · intro other member
    have past := (links.sound.past other member).1
    refine ⟨?_, Nat.ne_of_gt past, fun next there one here => .inr ⟨past, ?_⟩⟩
    · rw [BEq.comm]
      have unlike := List.find?_eq_none.mp absent other.2
        (links.entries ▸ List.mem_map.mpr ⟨other, member, rfl⟩)
      exact Bool.eq_false_of_not_eq_true unlike
    · exact links.sound.newer other member one here next there
  · intro other member one here next there
    change next ∈ policy.sequence? (policy.following queue.fresh) at there
    rw [policy.sequence?_following] at there
    obtain ⟨present, fresh, rfl⟩ := Option.map_eq_some_iff.mp there
    rcases List.mem_cons.mp member with rfl | member
    · obtain rfl := Option.some.inj (here.symm.trans fresh)
      exact Nat.lt_succ_self _
    · exact Nat.lt_succ_of_lt (links.sound.newer other member one here present fresh)
  · exact (perm.map Prod.fst).trans (links.slots.cons _)
  · rw [Policy.map_snd_placeCell, links.entries]
    rfl
  · intro slot single
    change _ = policy.frequency? (policy.following queue.fresh)
    cases policy <;> simp [PlainSlot.frequency?, Policy.frequency?, Policy.following, Rank.initial,
      AccessCount.initial, single]

/-- Changing a slot by its key changes it alone. -/
theorem slots_access (links : history.Links plain queue) (member : cell ∈ history)
    (same : (cell.2.key == key) = true) (change : ν → ν) :
    (cell.1.accessed change plain.clock ::
        (history.filter fun other => !(other.2.key == key)).map Prod.fst).Perm
      (plain.access key change).slots := by
  have split := links.slots.symm.trans ((links.sound.perm_cons_filter member same).map Prod.fst)
  have changed := split.map fun slot =>
    if slot.key == key then slot.accessed change plain.clock else slot
  have hit : (cell.1.key == key) = true := by
    rw [(links.sound.tells cell member).key]
    exact same
  have kept : ((history.filter fun other => !(other.2.key == key)).map Prod.fst).map
      (fun slot => if slot.key == key then slot.accessed change plain.clock else slot) =
        (history.filter fun other => !(other.2.key == key)).map Prod.fst := by
    rw [List.map_map]
    apply List.map_congr_left
    intro other here
    obtain ⟨listed, apart⟩ := List.mem_filter.mp here
    have miss : ¬ (other.1.key == key) = true := by
      rw [(links.sound.tells other listed).key]
      simpa using apart
    exact if_neg miss
  rw [List.map_cons, List.map_cons, if_pos hit, kept] at changed
  exact changed.symm

/-- Renewing an entry counts an access to its slot. -/
theorem renew (links : history.Links plain queue) (member : cell ∈ history)
    (same : (cell.2.key == key) = true) (change : ν → ν) :
    Links (policy.placeCell
        (cell.1.accessed change plain.clock,
          ⟨cell.2.key, change cell.1.value, policy.accessed cell.2.metadata⟩)
        (history.filter fun other => !(other.2.key == cell.2.key)))
      (plain.access key change) (queue.renew cell.2 (change cell.1.value)) := by
  have spelling : (history.filter fun other => !(other.2.key == key)) =
      history.filter fun other => !(other.2.key == cell.2.key) := by
    apply List.filter_congr
    intro other _
    rw [BEq.congr_right same]
  have slots := links.slots_access member same change
  rw [spelling] at slots
  have split := links.sound.perm_cons_filter member BEq.rfl
  have apart := (split.pairwise_iff Apart.symm).mp links.sound.apart
  refine ⟨?_, ((Policy.placeCell_perm _ _).map Prod.fst).trans slots, ?_, links.capacity,
    links.single⟩
  · apply (links.sound.sublist List.filter_sublist).place
      ((links.sound.tells cell member).accessed change plain.clock)
    · intro other here
      have unlike := (List.pairwise_cons.mp apart).1 other here
      refine ⟨unlike.key, unlike.storedAt, ?_⟩
      rw [policy.sequence?_accessed]
      exact unlike.sequence
    · exact Nat.le_of_lt (links.sound.past cell member).1
    · rfl
    · intro other here one
      rcases List.mem_cons.mp here with rfl | here
      · rw [policy.sequence?_accessed]
        exact links.sound.newer cell member one
      · exact links.sound.newer other (List.mem_filter.mp here).1 one
  · rw [Policy.map_snd_placeCell, links.entries_discard]
    rfl

end Links

end EvictionCache.History
