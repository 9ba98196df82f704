import EvictionCache.Proofs.Recency.Walks
import Mathlib.Data.List.Nodup
import Mathlib.Logic.Function.Basic
import Mathlib.Logic.Pairwise

/-!
# Chains that share an arena

Any number of chains may have their nodes in one arena, each in slots of its own, beside
occupied slots that are in no chain (`Chain.Share`). Every operation on one of the chains is
then the operation of its name on the sequence of that chain (`Chain.ActsAlone`): the ends and
sequences of the others stay, and so do all nodes that are in neither its old sequence nor its
new one (`Chain.Becomes`).
-/
namespace EvictionCache.Chain

open Function (update)

universe u v

variable {ι : Type v} {α : Type u}

/-- Chains with nodes in one arena, each in slots of its own. -/
structure Share (nodes : Nodes α) (chains : ι → Chain) (sequences : ι → List SlotId) :
    Prop where
  /-- The free slots of the arena are those on its free stack. -/
  wellFormed : Arena.WellFormed nodes
  /-- Each chain spells its sequence. -/
  spells : ∀ name, (chains name).Spells nodes (sequences name)
  /-- No slot is in two sequences. -/
  disjoint : Pairwise fun one other => (sequences one).Disjoint (sequences other)

/-- A slot is occupied by a node that is in no sequence. -/
structure Loose (nodes : Nodes α) (sequences : ι → List SlotId) (slot : SlotId) : Prop where
  /-- The slot is occupied. -/
  live : nodes.isLive slot = true
  /-- No chain has it. -/
  not_mem : ∀ name, slot ∉ sequences name

variable {nodes : Nodes α} {chains : ι → Chain} {sequences : ι → List SlotId}
  {name : ι} {slot : SlotId} {slots left right : List SlotId}

/-- What is left of a sequence without a slot is a part of it. -/
theorem rest_subset (whole : sequences name = left ++ slot :: right) :
    left ++ right ⊆ sequences name := by
  rw [whole]
  exact ((List.sublist_cons_self slot right).append_left left).subset

namespace Share

/-- A part of a sequence meets no other sequence. -/
theorem disjoint_of_subset (share : Share nodes chains sequences)
    (part : slots ⊆ sequences name) {other : ι} (distinct : other ≠ name) :
    slots.Disjoint (sequences other) :=
  List.disjoint_of_subset_left part (share.disjoint distinct.symm)

/-- A chain spells its sequence also when it is written as what is before a slot and after it. -/
theorem spells_split (share : Share nodes chains sequences)
    (whole : sequences name = left ++ slot :: right) :
    (chains name).Spells nodes (left ++ slot :: right) :=
  whole ▸ share.spells name

/-- A slot of a sequence splits it at one place only. -/
theorem exists_split (share : Share nodes chains sequences) (member : slot ∈ sequences name) :
    ∃ left right, sequences name = left ++ slot :: right ∧
      (sequences name).erase slot = left ++ right := by
  obtain ⟨left, right, whole⟩ := List.append_of_mem member
  have absent : slot ∉ left := fun before =>
    (share.spells_split whole).not_mem_rest (List.mem_append_left right before)
  refine ⟨left, right, whole, ?_⟩
  rw [whole, List.erase_append_right _ absent, List.erase_cons_head]

end Share

variable [DecidableEq ι]

/-- A chain and the arena become what an operation on the chain returned: the chain has a new
sequence, the slots hold these values, and nothing else is different from before. -/
structure Becomes (nodes : Nodes α) (chains : ι → Chain) (sequences : ι → List SlotId)
    (name : ι) (result : Chain × Nodes α) (slots : List SlotId)
    (values : SlotId → Option α) : Prop where
  /-- The chain spells the new sequence, and the others spell what they did. -/
  share : Share result.2 (update chains name result.1) (update sequences name slots)
  /-- The length of the chain is that of the sequence. -/
  length_eq : result.1.length = slots.length
  /-- The slots hold these values. -/
  value?_eq : result.2.value? = values
  /-- The nodes outside the old and the new sequence are as they were, with their links. -/
  frame : ∀ slot, slot ∉ sequences name → slot ∉ slots →
    result.2.get? slot = nodes.get? slot
  /-- A walk along the chain yields the values of its slots, last slot first. -/
  yields : ∃ met, result.1.walk.Yields result.2 met ∧
    met.map some = slots.reverse.map values

/-- Each operation on a chain is that operation on its sequence and leaves all else alone. -/
structure ActsAlone (nodes : Nodes α) (chains : ι → Chain) (sequences : ι → List SlotId)
    (name : ι) : Prop where
  /-- A loose node is put in front of the sequence. -/
  attach : ∀ slot, Loose nodes sequences slot →
    Becomes nodes chains sequences name ((chains name).attach nodes slot)
      (slot :: sequences name) nodes.value?
  /-- A new value takes a free slot. -/
  add_fresh : ∀ value, nodes.get? ((chains name).add nodes value).1 = none
  /-- The slot of a new value is put in front of the sequence. -/
  add : ∀ value, Becomes nodes chains sequences name ((chains name).add nodes value).2
    (((chains name).add nodes value).1 :: sequences name)
    (update nodes.value? ((chains name).add nodes value).1 (some value))
  /-- A detached node is taken out of the sequence. -/
  detach : ∀ slot ∈ sequences name,
    Becomes nodes chains sequences name ((chains name).detach nodes slot)
      ((sequences name).erase slot) nodes.value?
  /-- It is loose from then on and has no neighbours. -/
  detach_loose : ∀ slot ∈ sequences name,
    Loose ((chains name).detach nodes slot).2
        (update sequences name ((sequences name).erase slot)) slot ∧
      ((chains name).detach nodes slot).2.get? slot = (nodes.value? slot).map Node.detached
  /-- A moved node is taken out of the sequence and put in front. -/
  moveToNewest : ∀ slot ∈ sequences name,
    Becomes nodes chains sequences name ((chains name).moveToNewest nodes slot)
      (slot :: (sequences name).erase slot) nodes.value?
  /-- A removed node is taken out of the sequence and its slot is given up. -/
  remove : ∀ slot ∈ sequences name,
    Becomes nodes chains sequences name ((chains name).remove nodes slot).2
      ((sequences name).erase slot) (update nodes.value? slot none)
  /-- The value of the removed node is handed out. -/
  remove_fst : ∀ slot ∈ sequences name, ∃ value,
    nodes.value? slot = some value ∧ ((chains name).remove nodes slot).1 = some value
  /-- Without nodes there is no oldest one to remove. -/
  removeOldest_nil : sequences name = [] →
    (chains name).removeOldest nodes = (none, chains name, nodes)
  /-- Otherwise the oldest node is removed. -/
  removeOldest_concat : ∀ slots slot, sequences name = slots ++ [slot] →
    Becomes nodes chains sequences name ((chains name).removeOldest nodes).2
        slots (update nodes.value? slot none) ∧
      ∃ value, nodes.value? slot = some value ∧
        ((chains name).removeOldest nodes).1 = some value

namespace Share

/-- An operation that keeps the arena well formed, relinks one chain and touches no node outside
its old and its new sequence is one that the other chains do not notice. -/
theorem becomes (share : Share nodes chains sequences) {result : Chain × Nodes α}
    {values : SlotId → Option α} (wellFormed : Arena.WellFormed result.2)
    (spells : result.1.Spells result.2 slots) (value?_eq : result.2.value? = values)
    (frame : ∀ slot, slot ∉ sequences name → slot ∉ slots →
      result.2.get? slot = nodes.get? slot)
    (apart : ∀ other, other ≠ name → slots.Disjoint (sequences other)) :
    Becomes nodes chains sequences name result slots values where
  share := by
    refine ⟨wellFormed, fun other => ?_, fun one other distinct => ?_⟩
    · by_cases same : other = name
      · subst same
        rw [Function.update_self, Function.update_self]
        exact spells
      · rw [Function.update_of_ne same, Function.update_of_ne same]
        -- A slot of another chain is in neither sequence of this one, so its node is as it was.
        refine (share.spells other).congr fun slot member => frame slot ?_ ?_
        · exact fun former => share.disjoint same member former
        · exact fun latter => apart other same latter member
    · change (update sequences name slots one).Disjoint (update sequences name slots other)
      by_cases first : one = name
      · subst first
        rw [Function.update_self, Function.update_of_ne distinct.symm]
        exact apart other distinct.symm
      · rw [Function.update_of_ne first]
        by_cases second : other = name
        · subst second
          rw [Function.update_self]
          exact List.disjoint_comm.mp (apart one first)
        · rw [Function.update_of_ne second]
          exact share.disjoint distinct
  length_eq := spells.length_eq
  value?_eq := value?_eq
  frame := frame
  yields := ⟨result.1.values result.2, spells.yields, value?_eq ▸ spells.map_some_values⟩

/-- Attaching puts a loose node in front of the sequence. -/
theorem attach (share : Share nodes chains sequences) (loose : Loose nodes sequences slot) :
    Becomes nodes chains sequences name ((chains name).attach nodes slot)
      (slot :: sequences name) nodes.value? := by
  obtain ⟨node, held⟩ := Option.isSome_iff_exists.mp loose.live
  refine share.becomes ((sameValues_attach ..).wellFormed share.wellFormed)
    ((share.spells name).attach held (loose.not_mem name))
    (funext (sameValues_attach ..).value?_eq) (fun other former latter => ?_)
    (fun other distinct => ?_)
  · exact (share.spells name).get?_attach (List.ne_of_not_mem_cons latter) former
  · exact List.disjoint_cons_left.mpr
      ⟨loose.not_mem other, share.disjoint distinct.symm⟩

/-- Adding puts the slot of the new value in front of the sequence. -/
theorem add (share : Share nodes chains sequences) (value : α) :
    Becomes nodes chains sequences name ((chains name).add nodes value).2
      (((chains name).add nodes value).1 :: sequences name)
      (update nodes.value? ((chains name).add nodes value).1 (some value)) := by
  refine share.becomes (wellFormed_add share.wellFormed ..)
    ((share.spells name).add share.wellFormed value) (funext fun other => ?_)
    (fun other former latter => ?_) (fun other distinct => ?_)
  · rw [value?_add share.wellFormed, Function.update_apply]
  · exact (share.spells name).get?_add share.wellFormed (List.ne_of_not_mem_cons latter) former
  · exact List.disjoint_cons_left.mpr
      ⟨(share.spells other).add_handle_not_mem share.wellFormed value,
        share.disjoint distinct.symm⟩

/-- Detaching takes a node out of the sequence. -/
theorem detach (share : Share nodes chains sequences)
    (whole : sequences name = left ++ slot :: right) :
    Becomes nodes chains sequences name ((chains name).detach nodes slot) (left ++ right)
      nodes.value? := by
  have spells := share.spells_split whole
  refine share.becomes ((sameValues_detach ..).wellFormed share.wellFormed) spells.detach
    (funext (sameValues_detach ..).value?_eq) (fun other former _ => ?_)
    fun other => share.disjoint_of_subset (rest_subset whole)
  exact spells.get?_detach (whole ▸ former)

/-- Moving takes a node out of the sequence and puts it in front. -/
theorem moveToNewest (share : Share nodes chains sequences)
    (whole : sequences name = left ++ slot :: right) :
    Becomes nodes chains sequences name ((chains name).moveToNewest nodes slot)
      (slot :: (left ++ right)) nodes.value? := by
  have spells := share.spells_split whole
  refine share.becomes ((sameValues_moveToNewest ..).wellFormed share.wellFormed)
    spells.moveToNewest (funext (sameValues_moveToNewest ..).value?_eq)
    (fun other former _ => ?_) (fun other => share.disjoint_of_subset ?_)
  · exact spells.get?_moveToNewest (whole ▸ former)
  · rw [whole]
    exact List.perm_middle.symm.subset

/-- Removing takes a node out of the sequence, gives its slot up and hands out its value. -/
theorem remove (share : Share nodes chains sequences)
    (whole : sequences name = left ++ slot :: right) :
    Becomes nodes chains sequences name ((chains name).remove nodes slot).2 (left ++ right)
        (update nodes.value? slot none) ∧
      ∃ value, nodes.value? slot = some value ∧
        ((chains name).remove nodes slot).1 = some value := by
  have spells := share.spells_split whole
  obtain ⟨value, found⟩ := spells.exists_value (List.mem_append_right left List.mem_cons_self)
  refine ⟨?_, value, found, (remove_answer ..).trans found⟩
  refine share.becomes (wellFormed_remove share.wellFormed ..) spells.remove
    (funext fun other => ?_) (fun other former _ => ?_)
    fun other => share.disjoint_of_subset (rest_subset whole)
  · rw [value?_remove, Function.update_apply]
  · exact spells.get?_remove (whole ▸ former)

/-- A detached node is in no sequence and has no neighbours. -/
theorem detach_loose (share : Share nodes chains sequences)
    (whole : sequences name = left ++ slot :: right) :
    Loose ((chains name).detach nodes slot).2 (update sequences name (left ++ right)) slot ∧
      ((chains name).detach nodes slot).2.get? slot =
        (nodes.value? slot).map Node.detached := by
  have member : slot ∈ sequences name :=
    whole ▸ List.mem_append_right left List.mem_cons_self
  have spells := share.spells_split whole
  have unlinked := spells.get?_detach_self
  obtain ⟨value, found⟩ := (share.spells name).exists_value member
  refine ⟨⟨?_, fun other => ?_⟩, unlinked⟩
  · rw [Arena.isLive, unlinked, found]
    rfl
  · by_cases same : other = name
    · rw [same, Function.update_self]
      exact spells.not_mem_rest
    · rw [Function.update_of_ne same]
      exact fun elsewhere => share.disjoint same elsewhere member

/-- Each of the chains that share an arena does what its operations are for, and the others do
not notice. -/
theorem actsAlone (share : Share nodes chains sequences) (name : ι) :
    ActsAlone nodes chains sequences name where
  attach _ loose := share.attach loose
  add_fresh value := Arena.get?_insert_handle share.wellFormed (.detached value)
  add := share.add
  detach slot member := by
    obtain ⟨left, right, whole, rest⟩ := share.exists_split member
    rw [rest]
    exact share.detach whole
  detach_loose slot member := by
    obtain ⟨left, right, whole, rest⟩ := share.exists_split member
    rw [rest]
    exact share.detach_loose whole
  moveToNewest slot member := by
    obtain ⟨left, right, whole, rest⟩ := share.exists_split member
    rw [rest]
    exact share.moveToNewest whole
  remove slot member := by
    obtain ⟨left, right, whole, rest⟩ := share.exists_split member
    rw [rest]
    exact (share.remove whole).1
  remove_fst slot member := by
    obtain ⟨left, right, whole, -⟩ := share.exists_split member
    exact (share.remove whole).2
  removeOldest_nil none := by
    have spells := share.spells name
    rw [none] at spells
    exact spells.removeOldest_nil
  removeOldest_concat slots slot whole := by
    rw [(share.spells_split whole).removeOldest_concat, ← List.append_nil slots]
    exact share.remove whole

/-- Two chains in an arena with a loose node and a free slot: a node of the first is taken out
and put in front of the second, and the second then gives up the node it had before. -/
theorem actsAlone_two_chains :
    let nodes : Nodes Nat := ⟨#[some ⟨10, none, some ⟨1⟩⟩, some ⟨20, some ⟨0⟩, none⟩,
      some (.detached 30), some (.detached 40), none], [4], 4⟩
    let chains : Bool → Chain := fun name => if name then ⟨some ⟨2⟩, some ⟨2⟩, 1⟩
      else ⟨some ⟨0⟩, some ⟨1⟩, 2⟩
    let sequences : Bool → List SlotId := fun name => if name then [⟨2⟩] else [⟨0⟩, ⟨1⟩]
    let taken := (chains false).detach nodes ⟨0⟩
    let joined := (chains true).attach taken.2 ⟨0⟩
    Share nodes chains sequences ∧ (∀ name, ActsAlone nodes chains sequences name) ∧
      Loose nodes sequences ⟨3⟩ ∧ taken.1 = ⟨some ⟨1⟩, some ⟨1⟩, 1⟩ ∧
      joined.1 = ⟨some ⟨0⟩, some ⟨2⟩, 2⟩ ∧ (joined.1.removeOldest joined.2).1 = some 30 := by
  intro nodes chains sequences taken joined
  have share : Share nodes chains sequences := by
    refine ⟨⟨by decide, fun index => ?_, rfl⟩, fun name => ?_, fun one other distinct => ?_⟩
    · rcases index with _ | _ | _ | _ | _ | index <;> simp [nodes, Node.detached]
    · cases name with
      | false => exact ⟨rfl, rfl, rfl, by decide, ⟨10, rfl⟩, ⟨20, rfl⟩, trivial⟩
      | true => exact ⟨rfl, rfl, rfl, by decide, ⟨30, rfl⟩, trivial⟩
    · cases one <;> cases other <;> simp [sequences] at distinct ⊢
  refine ⟨share, fun name => share.actsAlone name, ⟨rfl, fun name => ?_⟩, ?_, ?_, ?_⟩
  · cases name <;> decide
  · decide
  · decide
  · decide

end Share

end EvictionCache.Chain
