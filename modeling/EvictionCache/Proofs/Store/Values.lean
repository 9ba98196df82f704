import EvictionCache.Proofs.Store.Basic

/-!
# Values in their slots

A value is replaced in its slot and nowhere else, so of several values that were left in one
slot only the last shows, and a value that is left as it was has changed nothing: not the order,
not the links, and not a free slot.
-/
namespace EvictionCache

universe u

namespace Nodes

variable {α : Type u} {nodes : Nodes α} {slot : SlotId}

/-- A change that leaves the value in a slot as it is changes nothing. -/
theorem modifyValue_eq_self {change : α → α}
    (same : ∀ value, nodes.value? slot = some value → change value = value) :
    nodes.modifyValue slot change = nodes := by
  refine Arena.modify_eq_self fun node held => ?_
  have kept : change node.value = node.value := same _ (congrArg (Option.map Node.value) held)
  exact congrArg (fun value => { node with value }) kept

/-- Changes to the value in one slot come one after the other. -/
theorem modifyValue_modifyValue (nodes : Nodes α) (slot : SlotId) (first second : α → α) :
    (nodes.modifyValue slot first).modifyValue slot second =
      nodes.modifyValue slot (second ∘ first) := Arena.modify_modify nodes slot _ _

end Nodes

namespace Policy

variable {κ ν : Type} {policy : Policy}

/-- Leaving the value that a slot holds changes nothing. -/
theorem setValue_self {store : policy.Store κ ν} {slot : SlotId}
    {entry : Entry κ ν policy.Metadata} (held : Policy.entry? policy store slot = some entry) :
    policy.setValue store slot entry.value = store := by
  have same : ∀ other, Policy.entry? policy store slot = some other →
      other.withValue entry.value = other := by
    intro other present
    obtain rfl := Option.some.inj (held.symm.trans present)
    rfl
  cases policy with
  | lru =>
    exact congrArg (fun nodes => { store with nodes }) (Nodes.modifyValue_eq_self same)
  | lfu => exact congrArg (fun slots => { store with slots }) (Arena.modify_eq_self same)
  | lfru =>
    exact congrArg (fun nodes => { store with nodes }) (Nodes.modifyValue_eq_self same)

/-- Of two values left in one slot the second stays. -/
theorem setValue_setValue (store : policy.Store κ ν) (slot : SlotId) (first second : ν) :
    policy.setValue (policy.setValue store slot first) slot second =
      policy.setValue store slot second := by
  let leave (value : ν) (entry : Entry κ ν policy.Metadata) := entry.withValue value
  cases policy with
  | lru =>
    exact congrArg (fun nodes => { store with nodes })
      (Nodes.modifyValue_modifyValue (RecencyStore.nodes store) slot (leave first) (leave second))
  | lfu =>
    exact congrArg (fun slots => { store with slots })
      (Arena.modify_modify (RankedStore.slots store) slot (leave first) (leave second))
  | lfru =>
    exact congrArg (fun nodes => { store with nodes })
      (Nodes.modifyValue_modifyValue (BucketedStore.nodes store) slot (leave first) (leave second))

/-- The value that was left is the one that the slot holds. -/
theorem entry?_setValue {store : policy.Store κ ν} {slot : SlotId}
    {entry : Entry κ ν policy.Metadata} (held : Policy.entry? policy store slot = some entry)
    (value : ν) :
    Policy.entry? policy (policy.setValue store slot value) slot =
      some (entry.withValue value) := by
  have renewed := congrArg (Option.map fun entry => entry.withValue value) held
  cases policy with
  | lru => exact (Nodes.value?_modifyValue _ slot slot _).trans ((if_pos rfl).trans renewed)
  | lfu => exact (Arena.get?_modify _ slot slot _).trans ((if_pos rfl).trans renewed)
  | lfru => exact (Nodes.value?_modifyValue _ slot slot _).trans ((if_pos rfl).trans renewed)

end Policy

end EvictionCache
