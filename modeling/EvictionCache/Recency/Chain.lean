import EvictionCache.Slot.Arena

/-!
# Recency chains

A chain orders slots of an arena from the most recently used to the least recently used. The
links between neighbours are stored in the arena beside the values, and the chain itself keeps
only its two ends and its length. Several chains can therefore share one arena, and a node
passes from one chain to another without leaving its slot. A node may be handed only to the
chain it is linked into.
-/
namespace EvictionCache

universe u

/-- A value with the slots of its neighbours in a chain. -/
structure Node (α : Type u) where
  /-- The value itself. -/
  value : α
  /-- The neighbour used next after this node. -/
  newer : Option SlotId
  /-- The neighbour used last before this node. -/
  older : Option SlotId

/-- The arena that chains share. -/
abbrev Nodes (α : Type u) := Arena (Node α)

/-- A node without neighbours. -/
def Node.detached {α : Type u} (value : α) : Node α := ⟨value, none, none⟩

/-- The value in a slot, without its links. -/
def Nodes.value? {α : Type u} (nodes : Nodes α) (slot : SlotId) : Option α :=
  (nodes.get? slot).map Node.value

/-- Changes the value in a slot and keeps its links. -/
def Nodes.modifyValue {α : Type u} (nodes : Nodes α) (slot : SlotId) (change : α → α) :
    Nodes α :=
  nodes.modify slot fun node => { node with value := change node.value }

/-- Sets the link of a node to its newer neighbour. -/
def Nodes.setNewer {α : Type u} (nodes : Nodes α) (slot : SlotId) (newer : Option SlotId) :
    Nodes α :=
  nodes.modify slot fun node => { node with newer }

/-- Sets the link of a node to its older neighbour. -/
def Nodes.setOlder {α : Type u} (nodes : Nodes α) (slot : SlotId) (older : Option SlotId) :
    Nodes α :=
  nodes.modify slot fun node => { node with older }

/-- The ends of a chain whose nodes are in an arena. -/
structure Chain where
  /-- The most recently used node. -/
  newest : Option SlotId
  /-- The least recently used node. -/
  oldest : Option SlotId
  /-- Number of nodes. -/
  length : Nat
deriving DecidableEq

namespace Chain

variable {α : Type u}

/-- A chain without nodes. -/
def empty : Chain := ⟨none, none, 0⟩

/-- The slot a link leads to, if it is occupied. -/
def follow (nodes : Nodes α) (link : Option SlotId) : Option SlotId :=
  link.filter nodes.isLive

/-- Links a detached node at the most recent end. -/
def attach (chain : Chain) (nodes : Nodes α) (slot : SlotId) : Chain × Nodes α :=
  if nodes.isLive slot then
    let nodes := (nodes.setNewer slot none).setOlder slot chain.newest
    match follow nodes chain.newest with
    | some second =>
      (⟨some slot, chain.oldest, chain.length + 1⟩, nodes.setNewer second (some slot))
    | none => (⟨some slot, some slot, chain.length + 1⟩, nodes)
  else (chain, nodes)

/-- Writes a link past a node that leaves: its newer neighbour, or else the newest end, now
leads to its older neighbour. -/
def bridgeNewer (chain : Chain) (nodes : Nodes α) (node : Node α) : Chain × Nodes α :=
  match follow nodes node.newer with
  | some newer => (chain, nodes.setOlder newer node.older)
  | none => ({ chain with newest := node.older }, nodes)

/-- Writes a link past a node that leaves: its older neighbour, or else the oldest end, now
leads to its newer neighbour. -/
def bridgeOlder (chain : Chain) (nodes : Nodes α) (node : Node α) : Chain × Nodes α :=
  match follow nodes node.older with
  | some older => (chain, nodes.setNewer older node.newer)
  | none => ({ chain with oldest := node.newer }, nodes)

/-- Unlinks a node of this chain; its slot stays occupied. -/
def detach (chain : Chain) (nodes : Nodes α) (slot : SlotId) : Chain × Nodes α :=
  match nodes.get? slot with
  | none => (chain, nodes)
  | some node =>
    let nodes := (nodes.setNewer slot none).setOlder slot none
    let (chain, nodes) := chain.bridgeNewer nodes node
    let (chain, nodes) := chain.bridgeOlder nodes node
    ({ chain with length := chain.length - 1 }, nodes)

/-- Makes a node of this chain the most recently used. -/
def moveToNewest (chain : Chain) (nodes : Nodes α) (slot : SlotId) : Chain × Nodes α :=
  if chain.newest = some slot then (chain, nodes)
  else
    let (chain, nodes) := chain.detach nodes slot
    chain.attach nodes slot

/-- Stores a value in the arena and links it at the most recent end. -/
def add (chain : Chain) (nodes : Nodes α) (value : α) : SlotId × Chain × Nodes α :=
  let (slot, nodes) := nodes.insert (.detached value)
  (slot, chain.attach nodes slot)

/-- Unlinks a node of this chain and gives up its slot. -/
def remove (chain : Chain) (nodes : Nodes α) (slot : SlotId) : Option α × Chain × Nodes α :=
  let (chain, nodes) := chain.detach nodes slot
  let (node, nodes) := nodes.remove slot
  (node.map Node.value, chain, nodes)

/-- Removes the least recently used node. -/
def removeOldest (chain : Chain) (nodes : Nodes α) : Option α × Chain × Nodes α :=
  match chain.oldest with
  | none => (none, chain, nodes)
  | some slot => chain.remove nodes slot

end Chain

end EvictionCache
