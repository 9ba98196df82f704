import EvictionCache.Frequency.Buckets
import EvictionCache.Proofs.Frequency.Sorted
import EvictionCache.Proofs.Recency.Links
import Mathlib.Logic.Function.Basic

/-!
# Laws of frequency buckets

Buckets stand for a sequence of slots for each count, newest first (`Buckets.Spells`); a count
has a bucket when its sequence is not empty, and no slot is in two sequences. Since all chains
share one arena, each operation comes with the frame that the chains of other counts need: it
changes no node outside the sequence it works on.
-/
namespace EvictionCache.Buckets

open Function (update)

variable {α : Type}

/-- Buckets spell a sequence of slots for each count. -/
structure Spells (buckets : Buckets) (nodes : Nodes α) (sequences : Nat → List SlotId) :
    Prop where
  /-- The chain of a count spells its sequence. -/
  chain : ∀ count, (buckets.chain count).Spells nodes (sequences count)
  /-- A count has a bucket when its sequence is not empty. -/
  mem_iff : ∀ count, count ∈ buckets.chains ↔ sequences count ≠ []
  /-- No slot is in the sequences of two counts. -/
  disjoint : ∀ {count other}, count ≠ other → (sequences count).Disjoint (sequences other)

/-- Adding up lengths is measuring the lists put together. -/
theorem foldl_add_length {β γ : Type} {members : List β} {amount : β → Nat} {parts : β → List γ}
    (same : ∀ member ∈ members, amount member = (parts member).length) (start : Nat) :
    members.foldl (fun sum member => sum + amount member) start =
      start + (members.flatMap parts).length := by
  induction members generalizing start with
  | nil => rfl
  | cons first rest ih =>
    have others := ih fun member here => same member (List.mem_cons_of_mem _ here)
    rw [List.foldl_cons, others, same first List.mem_cons_self, List.flatMap_cons,
      List.length_append, Nat.add_assoc]

/-- Number of nodes in all buckets together. -/
def length (buckets : Buckets) : Nat :=
  buckets.chains.foldl (fun sum _ chain => sum + chain.length) 0

/-- The chain of a count is the one in its bucket. -/
theorem chain_eq_of_getElem? {buckets : Buckets} {count : Nat} {chain : Chain}
    (found : buckets.chains[count]? = some chain) : buckets.chain count = chain := by
  rw [Buckets.chain, Std.TreeMap.getD_eq_getD_getElem?, found]
  rfl

/-- Replacing the chain of a count leaves the other chains. -/
theorem chain_setChain (buckets : Buckets) (count other : Nat) (chain : Chain) :
    (buckets.setChain count chain).chain other =
      if other = count then chain else buckets.chain other := by
  simp only [Buckets.chain, setChain, Std.TreeMap.getD_insert, Nat.compare_eq_eq,
    eq_comm (a := other)]

/-- Dropping the chain of a count leaves the other chains. -/
theorem chain_setOrDrop (buckets : Buckets) (count other : Nat) (chain : Chain) :
    (buckets.setOrDrop count chain).chain other =
      if other = count then if chain.length = 0 then .empty else chain
      else buckets.chain other := by
  rw [setOrDrop]
  split
  · simp only [Buckets.chain, Std.TreeMap.getD_erase, Nat.compare_eq_eq, eq_comm (a := other)]
  · exact chain_setChain ..

/-- A count has a bucket if its chain was put there and has nodes, or if it had one before. -/
theorem mem_setOrDrop (buckets : Buckets) (count other : Nat) (chain : Chain) :
    other ∈ (buckets.setOrDrop count chain).chains ↔
      if other = count then chain.length ≠ 0 else other ∈ buckets.chains := by
  rw [setOrDrop]
  split
  · next empty =>
    simp only [Std.TreeMap.mem_erase, ne_eq, Nat.compare_eq_eq, empty]
    split <;> simp_all [eq_comm]
  · next nonempty =>
    simp only [setChain, Std.TreeMap.mem_insert, Nat.compare_eq_eq]
    split <;> simp_all [eq_comm]

/-- A chain with nodes is kept. -/
theorem setOrDrop_eq_setChain (buckets : Buckets) (count : Nat) {chain : Chain}
    (nonempty : chain.length ≠ 0) :
    buckets.setOrDrop count chain = buckets.setChain count chain := by
  rw [setOrDrop, if_neg nonempty]

section Values

/-- Detaching changes links only. -/
theorem sameValues_detach (buckets : Buckets) (nodes : Nodes α) (slot : SlotId) (count : Nat) :
    nodes.SameValues (buckets.detach nodes slot count).2 := by
  rw [Buckets.detach]
  split
  · exact .refl nodes
  · exact Chain.sameValues_detach ..

/-- Attaching changes links only. -/
theorem sameValues_attach (buckets : Buckets) (nodes : Nodes α) (slot : SlotId) (count : Nat) :
    nodes.SameValues (buckets.attach nodes slot count).2 :=
  Chain.sameValues_attach ..

/-- Promoting changes links only. -/
theorem sameValues_promote (buckets : Buckets) (nodes : Nodes α) (slot : SlotId)
    (old new : Nat) : nodes.SameValues (buckets.promote nodes slot old new).2 := by
  rw [Buckets.promote]
  split
  · split
    · exact .refl nodes
    · exact Chain.sameValues_moveToNewest ..
  · exact (sameValues_detach ..).trans (sameValues_attach ..)

/-- Adding stores the value under its handle and changes no other value. -/
theorem value?_add {nodes : Nodes α} (wellFormed : Arena.WellFormed nodes) (buckets : Buckets)
    (count : Nat) (value : α) (other : SlotId) :
    (buckets.add nodes count value).2.2.value? other =
      if other = (buckets.add nodes count value).1 then some value else nodes.value? other :=
  Chain.value?_add wellFormed (buckets.chain count) value other

/-- Adding keeps the arena well formed. -/
theorem wellFormed_add {nodes : Nodes α} (wellFormed : Arena.WellFormed nodes)
    (buckets : Buckets) (count : Nat) (value : α) :
    Arena.WellFormed (buckets.add nodes count value).2.2 :=
  Chain.wellFormed_add wellFormed (buckets.chain count) value

/-- Removing answers the value of the slot. -/
theorem remove_answer (buckets : Buckets) (nodes : Nodes α) (slot : SlotId) (count : Nat) :
    (buckets.remove nodes slot count).1 = nodes.value? slot := by
  rw [← (sameValues_detach buckets nodes slot count).value?_eq, Nodes.value?,
    ← Arena.remove_answer]
  rfl

/-- Removing drops the value of its slot and no other. -/
theorem value?_remove (buckets : Buckets) (nodes : Nodes α) (slot other : SlotId)
    (count : Nat) :
    (buckets.remove nodes slot count).2.2.value? other =
      if other = slot then none else nodes.value? other := by
  rw [← (sameValues_detach buckets nodes slot count).value?_eq other]
  change Option.map Node.value
    (((buckets.detach nodes slot count).2.remove slot).2.get? other) = _
  rw [Arena.get?_remove]
  split <;> rfl

/-- Removing keeps the arena well formed. -/
theorem wellFormed_remove {nodes : Nodes α} (wellFormed : Arena.WellFormed nodes)
    (buckets : Buckets) (slot : SlotId) (count : Nat) :
    Arena.WellFormed (buckets.remove nodes slot count).2.2 :=
  ((sameValues_detach ..).wellFormed wellFormed).remove slot

/-- Without buckets there is nothing to pop. -/
theorem popLowest_of_none {buckets : Buckets} (nodes : Nodes α)
    (empty : buckets.chains.minKey? = none) :
    buckets.popLowest nodes = (none, buckets, nodes) := by
  rw [popLowest, empty]

end Values

namespace Spells

variable {buckets : Buckets} {nodes changed : Nodes α} {sequences : Nat → List SlotId}
  {count : Nat} {slot : SlotId}

/-- What buckets spell depends on the nodes of their own slots only. -/
theorem congr (spells : buckets.Spells nodes sequences)
    (same : ∀ count, ∀ slot ∈ sequences count, changed.get? slot = nodes.get? slot) :
    buckets.Spells changed sequences :=
  { spells with chain := fun count => (spells.chain count).congr (same count) }

/-- What buckets spell does not depend on the values. -/
theorem modifyValue (spells : buckets.Spells nodes sequences) (slot : SlotId)
    (change : α → α) : buckets.Spells (nodes.modifyValue slot change) sequences :=
  { spells with chain := fun count => (spells.chain count).modifyValue slot change }

/-- Giving a count another chain changes its sequence only, if the nodes of the other sequences
stay as they are. -/
theorem setOrDrop (spells : buckets.Spells nodes sequences) {chain : Chain}
    {slots : List SlotId} (own : chain.Spells changed slots)
    (apart : ∀ other, other ≠ count → slots.Disjoint (sequences other))
    (kept : ∀ other, other ≠ count → ∀ slot ∈ sequences other,
      changed.get? slot = nodes.get? slot) :
    (buckets.setOrDrop count chain).Spells changed (update sequences count slots) where
  chain other := by
    rw [chain_setOrDrop, Function.update_apply]
    split
    · split
      · next empty =>
        rw [own.length_eq] at empty
        rw [List.eq_nil_of_length_eq_zero empty]
        exact Chain.spells_empty changed
      · exact own
    · next others => exact (spells.chain other).congr (kept other others)
  mem_iff other := by
    rw [mem_setOrDrop, Function.update_apply]
    split
    · rw [own.length_eq, ne_eq, List.length_eq_zero_iff]
    · exact spells.mem_iff other
  disjoint {one other} distinct := by
    rw [Function.update_apply, Function.update_apply]
    split
    · next same =>
      rw [if_neg fun again : other = count => distinct (same.trans again.symm)]
      exact apart other fun again => distinct (same.trans again.symm)
    · next others =>
      split
      · exact List.disjoint_symm (apart one others)
      · exact spells.disjoint distinct

/-- The chain of a count with nodes is in its bucket. -/
theorem getElem?_eq (spells : buckets.Spells nodes sequences) (nonempty : sequences count ≠ []) :
    buckets.chains[count]? = some (buckets.chain count) := by
  have found := Std.TreeMap.getElem?_eq_some_getElem ((spells.mem_iff count).mpr nonempty)
  rw [found, chain_eq_of_getElem? found]

/-- A bucket holds a chain of the sequence of its count. -/
theorem spells_of_getElem? (spells : buckets.Spells nodes sequences) {chain : Chain}
    (found : buckets.chains[count]? = some chain) : chain.Spells nodes (sequences count) :=
  chain_eq_of_getElem? found ▸ spells.chain count

/-- A bucket is never empty. -/
theorem length_pos (spells : buckets.Spells nodes sequences) {chain : Chain}
    (found : buckets.chains[count]? = some chain) : 0 < chain.length := by
  have kept : count ∈ buckets.chains := by
    rw [Std.TreeMap.mem_iff_isSome_getElem?, found, Option.isSome_some]
  rw [(spells.spells_of_getElem? found).length_eq, List.length_pos_iff]
  exact (spells.mem_iff count).mp kept

/-- A slot is met in the bucket of a count exactly when it is in the sequence of the count. -/
theorem exists_visits_iff (spells : buckets.Spells nodes sequences) :
    (∃ chain, buckets.chains[count]? = some chain ∧ chain.Visits nodes slot) ↔
      slot ∈ sequences count := by
  constructor
  · rintro ⟨chain, found, here⟩
    exact (spells.spells_of_getElem? found).visits_iff.mp here
  · intro member
    have found := spells.getElem?_eq (List.ne_nil_of_mem member)
    exact ⟨_, found, (spells.spells_of_getElem? found).visits_iff.mpr member⟩

/-- No slot is met in the buckets of two counts. -/
theorem count_eq_of_visits (spells : buckets.Spells nodes sequences) {other : Nat}
    {first second : Chain} (found : buckets.chains[count]? = some first)
    (again : buckets.chains[other]? = some second) (here : first.Visits nodes slot)
    (there : second.Visits nodes slot) : count = other := by
  by_contra distinct
  have member := (spells.spells_of_getElem? found).visits_iff.mp here
  have another := (spells.spells_of_getElem? again).visits_iff.mp there
  exact spells.disjoint distinct member another

/-- The buckets have as many nodes as their sequences are long together. -/
theorem length_eq (spells : buckets.Spells nodes sequences) :
    buckets.length = (buckets.chains.keys.flatMap sequences).length := by
  rw [length, Std.TreeMap.foldl_eq_foldl_toList, ← Std.TreeMap.map_fst_toList_eq_keys,
    List.flatMap_map, foldl_add_length ?_ 0, Nat.zero_add]
  intro bucket member
  have found := Std.TreeMap.mem_toList_iff_getElem?_eq_some.mp
    (show (bucket.1, bucket.2) ∈ buckets.chains.toList from member)
  exact (spells.spells_of_getElem? found).length_eq

/-- A slot in one sequence is in no other. -/
theorem not_mem_of_ne (spells : buckets.Spells nodes sequences) (member : slot ∈ sequences count)
    {other : Nat} (apart : other ≠ count) : slot ∉ sequences other :=
  fun again => spells.disjoint apart again member

section Detach

variable {left right : List SlotId}

/-- Once a slot is taken out of the sequence of its count it is in no sequence. -/
theorem not_mem_update (spells : buckets.Spells nodes sequences)
    (split : sequences count = left ++ slot :: right) (other : Nat) :
    slot ∉ update sequences count (left ++ right) other := by
  have own := spells.chain count
  rw [split] at own
  rw [Function.update_apply]
  split
  · exact own.not_mem_rest
  · next apart => exact spells.not_mem_of_ne (by simp [split]) apart

/-- Detaching works on the chain of the bucket. -/
theorem detach_eq (spells : buckets.Spells nodes sequences) (nonempty : sequences count ≠ []) :
    buckets.detach nodes slot count =
      (buckets.setOrDrop count ((buckets.chain count).detach nodes slot).1,
        ((buckets.chain count).detach nodes slot).2) := by
  rw [Buckets.detach, spells.getElem?_eq nonempty]

/-- Detaching takes a slot out of the sequence of its count. -/
theorem detach (spells : buckets.Spells nodes sequences)
    (split : sequences count = left ++ slot :: right) :
    (buckets.detach nodes slot count).1.Spells (buckets.detach nodes slot count).2
      (update sequences count (left ++ right)) := by
  have own := spells.chain count
  rw [split] at own
  rw [spells.detach_eq (by simp [split])]
  refine spells.setOrDrop own.detach (fun other apart => ?_) fun other apart name member => ?_
  · have kept := spells.disjoint apart.symm
    rw [split] at kept
    exact List.disjoint_of_subset_left (by simp) kept
  · refine own.get?_detach fun here => ?_
    rw [← split] at here
    exact spells.not_mem_of_ne here apart member

end Detach

/-- Attaching puts a slot that is in no sequence in front of that of its count. -/
theorem attach (spells : buckets.Spells nodes sequences) {node : Node α}
    (held : nodes.get? slot = some node) (detached : ∀ other, slot ∉ sequences other) :
    (buckets.attach nodes slot count).1.Spells (buckets.attach nodes slot count).2
      (update sequences count (slot :: sequences count)) := by
  have own := (spells.chain count).attach held (detached count)
  have nonempty : ((buckets.chain count).attach nodes slot).1.length ≠ 0 := by
    simp [own.length_eq]
  have attached : buckets.attach nodes slot count =
      (buckets.setChain count ((buckets.chain count).attach nodes slot).1,
        ((buckets.chain count).attach nodes slot).2) := rfl
  rw [attached, ← setOrDrop_eq_setChain _ _ nonempty]
  refine spells.setOrDrop own (fun other apart => ?_) fun other apart name member => ?_
  · exact List.disjoint_cons_left.mpr ⟨detached other, spells.disjoint apart.symm⟩
  · refine (spells.chain count).get?_attach ?_ (spells.not_mem_of_ne member apart.symm)
    rintro rfl
    exact detached other member

section Promote

variable {left right : List SlotId}

/-- Promoting takes a slot out of the sequence of its old count and puts it in front of that of
its new one, also when they are the same. -/
theorem promote (spells : buckets.Spells nodes sequences) {old : Nat} (new : Nat)
    (split : sequences old = left ++ slot :: right) :
    (buckets.promote nodes slot old new).1.Spells (buckets.promote nodes slot old new).2
      (update (update sequences old (left ++ right)) new
        (slot :: update sequences old (left ++ right) new)) := by
  have own := spells.chain old
  rw [split] at own
  have member : slot ∈ sequences old := by simp [split]
  rw [Buckets.promote]
  split
  · next same =>
    subst same
    have moved := own.moveToNewest
    simp only [spells.getElem?_eq (List.ne_nil_of_mem member)]
    rw [← setOrDrop_eq_setChain _ _ (by simp [moved.length_eq]), Function.update_self,
      Function.update_idem]
    refine spells.setOrDrop moved (fun other apart => ?_) fun other apart name here => ?_
    · have kept := spells.disjoint apart.symm
      rw [split] at kept
      exact List.disjoint_of_subset_left (by intro name; simp; tauto) kept
    · refine own.get?_moveToNewest fun again => ?_
      rw [← split] at again
      exact spells.not_mem_of_ne again apart here
  · next distinct =>
    -- Once detached the slot is in no sequence, but its node is still there to be attached.
    have detached := spells.detach split
    obtain ⟨value, held⟩ := own.node_eq
    have live := (sameValues_detach buckets nodes slot old).isSome_get?_eq slot
    rw [held] at live
    obtain ⟨node, after⟩ := Option.isSome_iff_exists.mp live
    exact detached.attach after (spells.not_mem_update split)

end Promote

section Store

variable {left right : List SlotId}

/-- Adding stores the value in a vacant slot and puts it in front of the sequence of its
count. -/
theorem add (wellFormed : Arena.WellFormed nodes) (spells : buckets.Spells nodes sequences)
    (count : Nat) (value : α) :
    (buckets.add nodes count value).2.1.Spells (buckets.add nodes count value).2.2
      (update sequences count ((buckets.add nodes count value).1 :: sequences count)) := by
  have absent : ∀ other, (nodes.insert (.detached value)).1 ∉ sequences other :=
    fun other => (spells.chain other).add_handle_not_mem wellFormed value
  have kept : buckets.Spells (nodes.insert (.detached value)).2 sequences :=
    { spells with chain := fun count => (spells.chain count).inserted wellFormed value }
  exact kept.attach (Arena.get?_insert_self wellFormed _) absent

/-- Removing takes a slot out of the sequence of its count. -/
theorem remove (spells : buckets.Spells nodes sequences)
    (split : sequences count = left ++ slot :: right) :
    (buckets.remove nodes slot count).2.1.Spells (buckets.remove nodes slot count).2.2
      (update sequences count (left ++ right)) := by
  refine (spells.detach split).congr fun other name member => ?_
  have apart : name ≠ slot := fun same => spells.not_mem_update split other (same ▸ member)
  exact (Arena.get?_remove ..).trans (if_neg apart)

/-- The lowest bucket is not empty. -/
theorem ne_nil_of_minKey? (spells : buckets.Spells nodes sequences)
    (lowest : buckets.chains.minKey? = some count) : sequences count ≠ [] :=
  (spells.mem_iff count).mp (Std.TreeMap.minKey?_eq_some_iff_mem_and_forall.mp lowest).1

/-- Popping removes the oldest node of the lowest bucket. -/
theorem popLowest_eq (spells : buckets.Spells nodes sequences)
    (lowest : buckets.chains.minKey? = some count) (split : sequences count = left ++ [slot]) :
    buckets.popLowest nodes = buckets.remove nodes slot count := by
  have own := spells.chain count
  rw [split] at own
  rw [popLowest, lowest]
  simp only [own.removeOldest_concat]
  rw [Buckets.remove, spells.detach_eq (by simp [split])]
  rfl

/-- The slot that popping would take. -/
theorem lowest?_eq (spells : buckets.Spells nodes sequences) :
    buckets.lowest? = buckets.chains.minKey?.bind fun count => (sequences count).getLast? := by
  rw [lowest?]
  cases buckets.chains.minKey? with
  | none => rfl
  | some count => exact (spells.chain count).oldest_eq

/-- The values are those of the sequences, by increasing count and each oldest first. -/
theorem values_eq (spells : buckets.Spells nodes sequences) :
    buckets.values nodes =
      buckets.chains.keys.flatMap fun count =>
        (sequences count).reverse.filterMap nodes.value? := by
  rw [values, ← Std.TreeMap.map_fst_toList_eq_keys, List.flatMap_map]
  apply List.flatMap_congr
  intro bucket member
  have found := Std.TreeMap.mem_toList_iff_getElem?_eq_some.mp
    (show (bucket.1, bucket.2) ∈ buckets.chains.toList from member)
  rw [← chain_eq_of_getElem? found, (spells.chain bucket.1).values_eq]

end Store

end Spells

end EvictionCache.Buckets
