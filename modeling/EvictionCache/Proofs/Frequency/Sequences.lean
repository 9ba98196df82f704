import EvictionCache.Proofs.Frequency.Buckets
import EvictionCache.Proofs.Recency.Sharing

/-!
# Buckets as a map from counts to sequences

Seen from outside, buckets are a map from counts to recency sequences, in which a count occurs
when its sequence is not empty (`Buckets.Sound`). Every operation is the operation of its name
on that map (`Buckets.MapsCounts`): a slot joins a sequence at its newest end, leaves the
sequence it is in, or does both, the lowest count loses its oldest slot, and reading goes by
increasing count.
-/
namespace EvictionCache.Buckets

open Function (update)

variable {α : Type}

/-- Buckets that are a map from counts to sequences of slots, one chain for each sequence that is
not empty, over an arena whose free slots are on its free stack. -/
structure Sound (buckets : Buckets) (nodes : Nodes α) (sequences : Nat → List SlotId) :
    Prop where
  /-- The free slots of the arena are those on its free stack. -/
  wellFormed : Arena.WellFormed nodes
  /-- Each count with a sequence has a chain that spells it, and no slot is in two sequences. -/
  spells : buckets.Spells nodes sequences

/-- An operation returned buckets with these sequences over an arena with these values. -/
structure Becomes (result : Buckets × Nodes α) (sequences : Nat → List SlotId)
    (values : SlotId → Option α) : Prop where
  /-- The buckets are a map to these sequences. -/
  sound : result.1.Sound result.2 sequences
  /-- The slots hold these values. -/
  value?_eq : result.2.value? = values

/-- The node that goes first: the oldest one of the smallest count. -/
structure Lowest (buckets : Buckets) (nodes : Nodes α) (sequences : Nat → List SlotId)
    (count : Nat) (slots : List SlotId) (slot : SlotId) (value : α) : Prop where
  /-- It is the last one of its sequence. -/
  sequence_eq : sequences count = slots ++ [slot]
  /-- Smaller counts have no nodes. -/
  lower_eq : ∀ lower < count, sequences lower = []
  /-- It holds the value. -/
  value?_eq : nodes.value? slot = some value
  /-- The buckets name it as the next one. -/
  lowest?_eq : buckets.lowest? = some slot

/-- Each operation on buckets is that operation on the map from counts to sequences. -/
structure MapsCounts (buckets : Buckets) (nodes : Nodes α) (sequences : Nat → List SlotId) :
    Prop where
  /-- A new value takes a free slot. -/
  add_fresh : ∀ count value, nodes.get? (buckets.add nodes count value).1 = none
  /-- The slot of a new value is put in front of the sequence of its count. -/
  add : ∀ count value, Becomes (buckets.add nodes count value).2
    (update sequences count ((buckets.add nodes count value).1 :: sequences count))
    (update nodes.value? (buckets.add nodes count value).1 (some value))
  /-- A promoted slot is taken out of one sequence and put in front of another or of the same. -/
  promote : ∀ old new, ∀ slot ∈ sequences old,
    let others := update sequences old ((sequences old).erase slot)
    Becomes (buckets.promote nodes slot old new) (update others new (slot :: others new))
      nodes.value?
  /-- The old count then has a bucket if a slot is left there or has come there. -/
  mem_promote_iff : ∀ old new, ∀ slot ∈ sequences old,
    old ∈ (buckets.promote nodes slot old new).1.chains ↔
      (sequences old).erase slot ≠ [] ∨ old = new
  /-- A removed slot is taken out of the sequence of its count and given up. -/
  remove : ∀ count, ∀ slot ∈ sequences count,
    Becomes (buckets.remove nodes slot count).2
      (update sequences count ((sequences count).erase slot)) (update nodes.value? slot none)
  /-- Its value is handed out. -/
  remove_fst : ∀ count, ∀ slot ∈ sequences count, ∃ value,
    nodes.value? slot = some value ∧ (buckets.remove nodes slot count).1 = some value
  /-- The count then has a bucket if a slot is left there. -/
  mem_remove_iff : ∀ count, ∀ slot ∈ sequences count,
    count ∈ (buckets.remove nodes slot count).2.1.chains ↔ (sequences count).erase slot ≠ []
  /-- Without buckets no node goes first, and popping does nothing. -/
  popLowest_none : buckets.size = 0 →
    buckets.lowest? = none ∧ buckets.popLowest nodes = (none, buckets, nodes)
  /-- Otherwise popping removes the node that goes first, and the bucket if it is left empty. -/
  popLowest_some : buckets.size ≠ 0 → ∃ count slots slot value,
    buckets.Lowest nodes sequences count slots slot value ∧
      (buckets.popLowest nodes).1 = some value ∧
      Becomes (buckets.popLowest nodes).2 (update sequences count slots)
        (update nodes.value? slot none) ∧
      (count ∈ (buckets.popLowest nodes).2.1.chains ↔ slots ≠ [])
  /-- The counts that are read are those with a sequence that is not empty. -/
  mem_keys_iff : ∀ count, count ∈ buckets.chains.keys ↔ sequences count ≠ []
  /-- They are read in increasing order. -/
  keys_sorted : buckets.chains.keys.Pairwise (· < ·)
  /-- The values of each count are read oldest first. -/
  values_eq : (buckets.values nodes).map some =
    buckets.chains.keys.flatMap fun count => (sequences count).reverse.map nodes.value?
  /-- A walk along the chain of a count comes to its end after these values. -/
  walks : ∀ count, (buckets.chain count).walk.Yields nodes ((buckets.chain count).values nodes)

/-- Buckets have a smallest count, unless there are none. -/
theorem minKey?_eq_none_iff (buckets : Buckets) :
    buckets.chains.minKey? = none ↔ buckets.size = 0 := by
  rw [Std.TreeMap.minKey?_eq_none_iff, Std.TreeMap.isEmpty_eq_size_eq_zero, beq_iff_eq]
  rfl

namespace Sound

variable {buckets : Buckets} {nodes : Nodes α} {sequences : Nat → List SlotId} {count : Nat}
  {slot : SlotId} {slots left right : List SlotId}

/-- No buckets over an arena without slots. -/
theorem empty : Buckets.empty.Sound (Arena.empty : Nodes α) fun _ => [] where
  wellFormed := Arena.wellFormed_empty
  spells :=
    { chain := fun _ => Chain.spells_empty _
      mem_iff := fun count => by simp [Buckets.empty]
      disjoint := fun _ => List.disjoint_nil_left _ }

/-- The chains of all counts share the arena. -/
theorem share (sound : buckets.Sound nodes sequences) :
    Chain.Share nodes buckets.chain sequences where
  wellFormed := sound.wellFormed
  spells := sound.spells.chain
  disjoint _ _ := sound.spells.disjoint

/-- Adding puts the slot of the new value in front of the sequence of its count. -/
theorem add (sound : buckets.Sound nodes sequences) (count : Nat) (value : α) :
    Becomes (buckets.add nodes count value).2
      (update sequences count ((buckets.add nodes count value).1 :: sequences count))
      (update nodes.value? (buckets.add nodes count value).1 (some value)) where
  sound := ⟨wellFormed_add sound.wellFormed .., sound.spells.add sound.wellFormed count value⟩
  value?_eq := by
    funext other
    rw [value?_add sound.wellFormed, Function.update_apply]

/-- Promoting takes a slot out of one sequence and puts it in front of another or of the same. -/
theorem promote (sound : buckets.Sound nodes sequences) (new : Nat)
    (whole : sequences count = left ++ slot :: right) :
    Becomes (buckets.promote nodes slot count new)
      (update (update sequences count (left ++ right)) new
        (slot :: update sequences count (left ++ right) new)) nodes.value? where
  sound := ⟨(sameValues_promote ..).wellFormed sound.wellFormed, sound.spells.promote new whole⟩
  value?_eq := funext (sameValues_promote ..).value?_eq

/-- Removing takes a slot out of the sequence of its count and gives it up. -/
theorem remove (sound : buckets.Sound nodes sequences)
    (whole : sequences count = left ++ slot :: right) :
    Becomes (buckets.remove nodes slot count).2 (update sequences count (left ++ right))
      (update nodes.value? slot none) where
  sound := ⟨wellFormed_remove sound.wellFormed .., sound.spells.remove whole⟩
  value?_eq := by
    funext other
    rw [value?_remove, Function.update_apply]

/-- Removing hands out the value of the node. -/
theorem exists_remove_fst (sound : buckets.Sound nodes sequences)
    (member : slot ∈ sequences count) :
    ∃ value, nodes.value? slot = some value ∧
      (buckets.remove nodes slot count).1 = some value := by
  obtain ⟨value, found⟩ := (sound.spells.chain count).exists_value member
  exact ⟨value, found, (remove_answer ..).trans found⟩

/-- The node that goes first is the oldest one of the smallest count. -/
theorem exists_lowest (sound : buckets.Sound nodes sequences)
    (smallest : buckets.chains.minKey? = some count) :
    ∃ slots slot value, buckets.Lowest nodes sequences count slots slot value := by
  have least := (Std.TreeMap.minKey?_eq_some_iff_mem_and_forall.mp smallest).2
  rcases List.eq_nil_or_concat (sequences count) with empty | ⟨slots, slot, whole⟩
  · exact absurd empty (sound.spells.ne_nil_of_minKey? smallest)
  · rw [List.concat_eq_append] at whole
    have member : slot ∈ sequences count := by simp [whole]
    obtain ⟨value, found⟩ := (sound.spells.chain count).exists_value member
    refine ⟨slots, slot, value, whole, fun lower below => ?_, found, ?_⟩
    · -- A smaller count with nodes would have a bucket below the smallest.
      by_contra nonempty
      have present : lower ∈ buckets.chains := (sound.spells.mem_iff lower).mpr nonempty
      have ordered : count ≤ lower := Nat.isLE_compare.mp (least lower present)
      omega
    · rw [sound.spells.lowest?_eq, smallest, Option.bind_some, whole, List.getLast?_concat]

/-- Popping removes the node that goes first. -/
theorem popLowest (sound : buckets.Sound nodes sequences) (nonempty : buckets.size ≠ 0) :
    ∃ count slots slot value, buckets.Lowest nodes sequences count slots slot value ∧
      (buckets.popLowest nodes).1 = some value ∧
      Becomes (buckets.popLowest nodes).2 (update sequences count slots)
        (update nodes.value? slot none) := by
  cases smallest : buckets.chains.minKey? with
  | none => exact absurd ((minKey?_eq_none_iff buckets).mp smallest) nonempty
  | some count =>
    obtain ⟨slots, slot, value, lowest⟩ := sound.exists_lowest smallest
    have popped := sound.spells.popLowest_eq smallest lowest.sequence_eq
    have removed := sound.remove lowest.sequence_eq
    rw [List.append_nil, ← popped] at removed
    have answer := remove_answer buckets nodes slot count
    rw [← popped, lowest.value?_eq] at answer
    exact ⟨count, slots, slot, value, lowest, answer, removed⟩

/-- The values are those in the slots of the sequences, one for each, by increasing count and
each sequence oldest first. -/
theorem map_some_values (sound : buckets.Sound nodes sequences) :
    (buckets.values nodes).map some =
      buckets.chains.keys.flatMap fun count => (sequences count).reverse.map nodes.value? := by
  rw [values, ← Std.TreeMap.map_fst_toList_eq_keys, List.flatMap_map, List.map_flatMap]
  apply List.flatMap_congr
  intro bucket member
  have found := Std.TreeMap.mem_toList_iff_getElem?_eq_some.mp
    (show (bucket.1, bucket.2) ∈ buckets.chains.toList from member)
  exact (sound.spells.spells_of_getElem? found).map_some_values

/-- Buckets are a map from counts to sequences, and their operations are those of the map. -/
theorem mapsCounts (sound : buckets.Sound nodes sequences) :
    buckets.MapsCounts nodes sequences where
  add_fresh _ value := Arena.get?_insert_handle sound.wellFormed (.detached value)
  add := sound.add
  promote old new slot member := by
    obtain ⟨left, right, whole, rest⟩ := sound.share.exists_split member
    rw [rest]
    exact sound.promote new whole
  mem_promote_iff old new slot member := by
    obtain ⟨left, right, whole, rest⟩ := sound.share.exists_split member
    rw [rest, (sound.promote new whole).sound.spells.mem_iff]
    by_cases same : old = new
    · simp [same]
    · simp [same]
  remove count slot member := by
    obtain ⟨left, right, whole, rest⟩ := sound.share.exists_split member
    rw [rest]
    exact sound.remove whole
  remove_fst _ _ := sound.exists_remove_fst
  mem_remove_iff count slot member := by
    obtain ⟨left, right, whole, rest⟩ := sound.share.exists_split member
    rw [rest, (sound.remove whole).sound.spells.mem_iff, Function.update_self]
  popLowest_none empty := by
    have smallest := (minKey?_eq_none_iff buckets).mpr empty
    exact ⟨by rw [lowest?, smallest]; rfl, popLowest_of_none nodes smallest⟩
  popLowest_some nonempty := by
    obtain ⟨count, slots, slot, value, lowest, answer, popped⟩ := sound.popLowest nonempty
    refine ⟨count, slots, slot, value, lowest, answer, popped, ?_⟩
    rw [popped.sound.spells.mem_iff, Function.update_self]
  mem_keys_iff count := Std.TreeMap.mem_keys.trans (sound.spells.mem_iff count)
  keys_sorted := Std.TreeMap.ordered_keys.imp Nat.compare_eq_lt.mp
  values_eq := sound.map_some_values
  walks count := (sound.spells.chain count).yields

/-- Two values with counts of their own: promoting the first to the count of the second drops its
bucket and puts it behind the second, and promoting it to its own count changes nothing. -/
theorem mapsCounts_emptied :
    let first := Buckets.empty.add (Arena.empty : Nodes Nat) 1 10
    let second := first.2.1.add first.2.2 3 20
    let moved := second.2.1.promote second.2.2 first.1 1 3
    let kept := second.2.1.promote second.2.2 first.1 1 1
    ∃ sequences, second.2.1.Sound second.2.2 sequences ∧
      second.2.1.MapsCounts second.2.2 sequences ∧
      moved.1.chains.keys = [3] ∧ moved.1.values moved.2 = [20, 10] ∧
      kept.1.chains.keys = [1, 3] ∧ (moved.1.popLowest moved.2).1 = some 20 := by
  intro first second moved kept
  have sound := ((empty.add 1 10).sound.add 3 20).sound
  have smallest : moved.1.chains.minKey? = some 3 := by
    rw [Std.TreeMap.minKey?_eq_head?_keys]
    decide
  refine ⟨_, sound, sound.mapsCounts, by decide, by decide, by decide, ?_⟩
  rw [Buckets.popLowest, smallest]
  decide

end Sound

end EvictionCache.Buckets
