import EvictionCache.Proofs.Recency.Links

/-!
# Chains that check what they rely on

The operations on arenas and chains never fail. Where a slot is vacant, a link leads nowhere or a
count is used up, they leave out what cannot be done, and nobody is told. Each has a checked form
that takes the same steps and stops with a `Fault` where something is left out, or where a node
is handed to a chain that it is not linked into. On chains that spell sequences without common
slots every check holds, so the checked form ends as the plain one.
-/
namespace EvictionCache

/-- What an operation relied on in vain. -/
inductive Fault where
  /-- A slot is vacant whose content is to be read, linked or given up. -/
  | vacantSlot
  /-- The slot on top of the free stack is not free. -/
  | takenSlot
  /-- An arena counts no values while it gives one up. -/
  | emptyArena
  /-- A node is linked into a chain already that another chain is to link or unlink. -/
  | linkedNode
  /-- A node that a chain is to unlink is not linked into it. -/
  | unlinkedNode
  /-- A chain counts no nodes while one leaves it. -/
  | emptyChain
  /-- A link leads to a vacant slot. -/
  | brokenLink
  /-- A walk meets more or fewer nodes than its chain counts. -/
  | miscountedWalk
  /-- There is no bucket for the count of an entry. -/
  | missingBucket
  /-- The rank of an entry is not in the ranking. -/
  | missingRank
  /-- A new rank is in the ranking already. -/
  | takenRank
  /-- The key of an entry that leaves is not in the index. -/
  | missingKey
  /-- A new key is in the index already. -/
  | takenKey
  /-- There is no first entry although entries are counted. -/
  | missingFirst
  /-- The store holds more or fewer entries than the index has keys. -/
  | miscountedStore
deriving DecidableEq

/-- Goes on if something holds. -/
def check (holds : Prop) [Decidable holds] (fault : Fault) : Except Fault Unit :=
  if holds then .ok () else .error fault

/-- Goes on with what there is. -/
def demand {α : Type} (fault : Fault) : Option α → Except Fault α
  | some value => .ok value
  | none => .error fault

section Steps

variable {α β : Type} {fault : Fault}

/-- A step without a fault hands its result on. -/
@[simp] theorem ok_bind (value : α) (next : α → Except Fault β) :
    (Except.ok value >>= next) = next value := rfl

/-- A check that holds has no effect. -/
theorem check_bind {holds : Prop} [Decidable holds] (proof : holds)
    (next : Unit → Except Fault β) : (check holds fault >>= next) = next () := by
  rw [check, if_pos proof, ok_bind]

/-- What is demanded is handed on if it is there. -/
theorem demand_bind {found : Option α} {value : α} (same : found = some value)
    (next : α → Except Fault β) : (demand fault found >>= next) = next value := by
  rw [same, demand, ok_bind]

/-- Steps without a fault for every member give the list of their results. -/
theorem mapM_eq_ok {members : List α} {step : α → Except Fault β} {result : α → β}
    (each : ∀ member ∈ members, step member = .ok (result member)) :
    members.mapM step = .ok (members.map result) := by
  induction members with
  | nil => rfl
  | cons first rest ih =>
    rw [List.mapM_cons, each first List.mem_cons_self, ok_bind,
      ih fun member here => each member (List.mem_cons_of_mem _ here), ok_bind]
    rfl

end Steps

namespace Arena

variable {α : Type} {arena : Arena α} {slot : SlotId} {value : α}

/-- Stores a value. The slot on top of the free stack must be free. -/
def insertChecked (arena : Arena α) (value : α) : Except Fault (SlotId × Arena α) := do
  check (∀ index ∈ arena.free.head?, arena.slots[index]?.any Option.isNone = true) .takenSlot
  return arena.insert value

/-- Gives up a slot and returns its value. The slot must be occupied and counted. -/
def removeChecked (arena : Arena α) (slot : SlotId) : Except Fault (α × Arena α) := do
  let value ← demand .vacantSlot (arena.get? slot)
  check (0 < arena.size) .emptyArena
  return (value, (arena.remove slot).2)

/-- The free stack of a well-formed arena leads to a free slot. -/
theorem WellFormed.insertChecked_eq (wellFormed : arena.WellFormed) (value : α) :
    arena.insertChecked value = .ok (arena.insert value) := by
  refine check_bind (fun index top => ?_) _
  have vacant := (wellFormed.mem_free_iff index).mp (List.mem_of_mem_head? top)
  rw [vacant]
  rfl

/-- A well-formed arena gives up every occupied slot. -/
theorem WellFormed.removeChecked_eq (wellFormed : arena.WellFormed)
    (held : arena.get? slot = some value) :
    arena.removeChecked slot = .ok (value, (arena.remove slot).2) := by
  rw [removeChecked, demand_bind held, check_bind (wellFormed.size_pos held)]
  rfl

end Arena

namespace Chain

variable {α : Type}

/-- Following newer links from the oldest node, as many as there are nodes, leads to a slot. -/
def Links (chain : Chain) (nodes : Nodes α) (slot : SlotId) : Prop :=
  ∃ steps < chain.length, chain.ascend nodes steps = some slot

instance (chain : Chain) (nodes : Nodes α) (slot : SlotId) : Decidable (chain.Links nodes slot) :=
  inferInstanceAs (Decidable (∃ steps < chain.length, _))

section Operations

/-- Links a node at the most recent end. It must be linked neither into this chain nor into one
of the others in the arena. The newest end must lead to a node unless the chain has none. -/
def attachChecked (chain : Chain) (others : List Chain) (nodes : Nodes α) (slot : SlotId) :
    Except Fault (Chain × Nodes α) := do
  check (nodes.isLive slot) .vacantSlot
  check (∀ other ∈ chain :: others, ¬ other.Links nodes slot) .linkedNode
  match chain.newest with
  | none =>
    check (chain.length = 0) .missingFirst
    return chain.attach nodes slot
  | some newest =>
    check (nodes.isLive newest) .brokenLink
    return chain.attach nodes slot

/-- Writes a link past a node that leaves. Its newer neighbour must be a node, and it has none
only at the newest end. -/
def bridgeNewerChecked (chain : Chain) (nodes : Nodes α) (slot : SlotId) (node : Node α) :
    Except Fault (Chain × Nodes α) :=
  match node.newer with
  | none => do
    check (chain.newest = some slot) .unlinkedNode
    return ({ chain with newest := node.older }, nodes)
  | some newer => do
    check (nodes.isLive newer) .brokenLink
    return (chain, nodes.setOlder newer node.older)

/-- Writes a link past a node that leaves. Its older neighbour must be a node, and it has none
only at the oldest end. -/
def bridgeOlderChecked (chain : Chain) (nodes : Nodes α) (slot : SlotId) (node : Node α) :
    Except Fault (Chain × Nodes α) :=
  match node.older with
  | none => do
    check (chain.oldest = some slot) .unlinkedNode
    return ({ chain with oldest := node.newer }, nodes)
  | some older => do
    check (nodes.isLive older) .brokenLink
    return (chain, nodes.setNewer older node.newer)

/-- Unlinks a node. It must be linked into this chain and no other in the arena, and the chain
must count it. -/
def detachChecked (chain : Chain) (others : List Chain) (nodes : Nodes α) (slot : SlotId) :
    Except Fault (Chain × Nodes α) := do
  check (0 < chain.length) .emptyChain
  let node ← demand .vacantSlot (nodes.get? slot)
  check (chain.Links nodes slot) .unlinkedNode
  check (∀ other ∈ others, ¬ other.Links nodes slot) .linkedNode
  let nodes := (nodes.setNewer slot none).setOlder slot none
  let (chain, nodes) ← chain.bridgeNewerChecked nodes slot node
  let (chain, nodes) ← chain.bridgeOlderChecked nodes slot node
  check (0 < chain.length) .emptyChain
  return ({ chain with length := chain.length - 1 }, nodes)

/-- Makes a node of this chain the most recently used. -/
def moveToNewestChecked (chain : Chain) (others : List Chain) (nodes : Nodes α)
    (slot : SlotId) : Except Fault (Chain × Nodes α) :=
  if chain.newest = some slot then return (chain, nodes)
  else do
    let (chain, nodes) ← chain.detachChecked others nodes slot
    chain.attachChecked others nodes slot

/-- Stores a value in the arena and links it at the most recent end. -/
def addChecked (chain : Chain) (others : List Chain) (nodes : Nodes α) (value : α) :
    Except Fault (SlotId × Chain × Nodes α) := do
  let (slot, nodes) ← nodes.insertChecked (.detached value)
  let (chain, nodes) ← chain.attachChecked others nodes slot
  return (slot, chain, nodes)

/-- Unlinks a node of this chain and gives up its slot. -/
def removeChecked (chain : Chain) (others : List Chain) (nodes : Nodes α) (slot : SlotId) :
    Except Fault (α × Chain × Nodes α) := do
  let (chain, nodes) ← chain.detachChecked others nodes slot
  let (node, nodes) ← nodes.removeChecked slot
  return (node.value, chain, nodes)

/-- Removes the least recently used node. Only a chain without nodes has none. -/
def removeOldestChecked (chain : Chain) (others : List Chain) (nodes : Nodes α) :
    Except Fault (Option α × Chain × Nodes α) :=
  match chain.oldest with
  | none => do
    check (chain.length = 0) .missingFirst
    return (none, chain, nodes)
  | some slot => do
    let (value, chain, nodes) ← chain.removeChecked others nodes slot
    return (some value, chain, nodes)

end Operations

section Bridges

variable {chain : Chain} {nodes : Nodes α} {slot : SlotId} {node : Node α}

/-- The newer side of a node that is linked there can be bridged. -/
theorem bridgeNewerChecked_eq (atEnd : node.newer = none → chain.newest = some slot)
    (live : ∀ newer ∈ node.newer, nodes.isLive newer = true) :
    chain.bridgeNewerChecked nodes slot node = .ok (chain.bridgeNewer nodes node) := by
  rw [bridgeNewerChecked, bridgeNewer]
  cases newer : node.newer with
  | none => exact check_bind (atEnd newer) _
  | some other =>
    have here := live other newer
    rw [follow, Option.filter_some, if_pos here]
    exact check_bind here _

/-- The older side of a node that is linked there can be bridged. -/
theorem bridgeOlderChecked_eq (atEnd : node.older = none → chain.oldest = some slot)
    (live : ∀ older ∈ node.older, nodes.isLive older = true) :
    chain.bridgeOlderChecked nodes slot node = .ok (chain.bridgeOlder nodes node) := by
  rw [bridgeOlderChecked, bridgeOlder]
  cases older : node.older with
  | none => exact check_bind (atEnd older) _
  | some other =>
    have here := live other older
    rw [follow, Option.filter_some, if_pos here]
    exact check_bind here _

/-- Bridging the newer side leaves the oldest end and the count of nodes. -/
theorem bridgeNewer_frame (chain : Chain) (nodes : Nodes α) (node : Node α) :
    (chain.bridgeNewer nodes node).1.oldest = chain.oldest ∧
      (chain.bridgeNewer nodes node).1.length = chain.length := by
  rw [bridgeNewer]
  split <;> exact ⟨rfl, rfl⟩

/-- Bridging the older side leaves the count of nodes. -/
theorem length_bridgeOlder (chain : Chain) (nodes : Nodes α) (node : Node α) :
    (chain.bridgeOlder nodes node).1.length = chain.length := by
  rw [bridgeOlder]
  split <;> rfl

end Bridges

/-- A chain links the slots of the sequence that it spells. -/
theorem Spells.links_iff {chain : Chain} {nodes : Nodes α} {slots : List SlotId} {slot : SlotId}
    (spells : chain.Spells nodes slots) : chain.Links nodes slot ↔ slot ∈ slots := by
  rw [← spells.visits_iff]
  constructor
  · rintro ⟨steps, _, found⟩
    exact ⟨steps, found⟩
  · rintro ⟨steps, found⟩
    refine ⟨steps, ?_, found⟩
    rw [← spells.wellLinked.ascend_isSome_iff, found, Option.isSome_some]

/-- The other chains in an arena spell sequences without any of some slots. -/
def Beside (others : List Chain) (nodes : Nodes α) (slots : List SlotId) : Prop :=
  ∀ other ∈ others, ∃ sequence, other.Spells nodes sequence ∧ slots.Disjoint sequence

namespace Beside

variable {others : List Chain} {nodes changed : Nodes α} {slots fewer : List SlotId}
  {slot : SlotId}

/-- The only chain of an arena is beside no other. -/
theorem nil : Beside [] nodes slots := fun _ member => nomatch member

/-- Chains beside some slots are beside any of them. -/
theorem subset (beside : Beside others nodes slots) (part : fewer ⊆ slots) :
    Beside others nodes fewer := fun other member =>
  have ⟨sequence, spells, apart⟩ := beside other member
  ⟨sequence, spells, List.disjoint_of_subset_left part apart⟩

/-- Chains beside some slots are not disturbed by changes to the nodes there. -/
theorem congr (beside : Beside others nodes slots)
    (same : ∀ slot, slot ∉ slots → changed.get? slot = nodes.get? slot) :
    Beside others changed slots := fun other member =>
  have ⟨sequence, spells, apart⟩ := beside other member
  ⟨sequence, spells.congr fun slot here => same slot fun there => apart there here, apart⟩

/-- A slot that was vacant is in no chain. -/
theorem insert (beside : Beside others nodes []) (wellFormed : nodes.WellFormed) (value : α) :
    Beside others (nodes.insert (.detached value)).2 [(nodes.insert (.detached value)).1] := by
  intro other member
  obtain ⟨sequence, spells, _⟩ := beside other member
  exact ⟨sequence, spells.inserted wellFormed value,
    List.singleton_disjoint.mpr (spells.add_handle_not_mem wellFormed value)⟩

/-- Chains beside a slot do not link it. -/
theorem not_links (beside : Beside others nodes slots) (member : slot ∈ slots) :
    ∀ other ∈ others, ¬ other.Links nodes slot := by
  intro other here linked
  obtain ⟨sequence, spells, apart⟩ := beside other here
  exact apart member (spells.links_iff.mp linked)

end Beside

namespace Spells

variable {chain : Chain} {others : List Chain} {nodes : Nodes α} {slots : List SlotId}
  {slot : SlotId}

/-- Every slot of a spelled sequence is occupied. -/
theorem isLive (spells : chain.Spells nodes slots) (member : slot ∈ slots) :
    nodes.isLive slot = true :=
  spells.wellLinked.live slot (spells.visits_iff.mpr member)

/-- A node of a spelled sequence without a newer neighbour is the newest, and otherwise that
neighbour is a node. -/
theorem newer_cases (spells : chain.Spells nodes slots) (member : slot ∈ slots)
    {node : Node α} (held : nodes.get? slot = some node) :
    (node.newer = none → chain.newest = some slot) ∧
      ∀ newer ∈ node.newer, nodes.isLive newer = true := by
  obtain ⟨left, right, rfl⟩ := List.append_of_mem member
  obtain ⟨value, linked⟩ := spells.node_eq
  obtain rfl := Option.some.inj (held.symm.trans linked)
  refine ⟨fun alone => ?_, fun newer here => spells.isLive ?_⟩
  · obtain rfl := List.getLast?_eq_none_iff.mp alone
    exact spells.newest_eq
  · exact List.mem_append_left _ (List.mem_of_getLast? here)

/-- A node of a spelled sequence without an older neighbour is the oldest, and otherwise that
neighbour is a node. -/
theorem older_cases (spells : chain.Spells nodes slots) (member : slot ∈ slots)
    {node : Node α} (held : nodes.get? slot = some node) :
    (node.older = none → chain.oldest = some slot) ∧
      ∀ older ∈ node.older, nodes.isLive older = true := by
  obtain ⟨left, right, rfl⟩ := List.append_of_mem member
  obtain ⟨value, linked⟩ := spells.node_eq
  obtain rfl := Option.some.inj (held.symm.trans linked)
  refine ⟨fun alone => ?_, fun older here => spells.isLive ?_⟩
  · obtain rfl := List.head?_eq_none_iff.mp alone
    rw [spells.oldest_eq, List.getLast?_concat]
  · exact List.mem_append_right _ (List.mem_cons_of_mem _ (List.mem_of_mem_head? here))

/-- A slot that is in no chain can be linked. -/
theorem attachChecked_eq (spells : chain.Spells nodes slots) (live : nodes.isLive slot = true)
    (detached : slot ∉ slots) (beside : Beside others nodes [slot]) :
    chain.attachChecked others nodes slot = .ok (chain.attach nodes slot) := by
  have unlinked : ∀ other ∈ chain :: others, ¬ other.Links nodes slot :=
    List.forall_mem_cons.mpr
      ⟨fun linked => detached (spells.links_iff.mp linked), beside.not_links List.mem_cons_self⟩
  rw [attachChecked, check_bind live, check_bind unlinked]
  cases newest : chain.newest with
  | none =>
    rw [spells.newest_eq, List.head?_eq_none_iff] at newest
    exact check_bind (by rw [spells.length_eq, newest, List.length_nil]) _
  | some first =>
    rw [spells.newest_eq] at newest
    exact check_bind (spells.isLive (List.mem_of_mem_head? newest)) _

/-- A slot of the sequence that is in no other chain can be unlinked. -/
theorem detachChecked_eq (spells : chain.Spells nodes slots) (member : slot ∈ slots)
    (beside : Beside others nodes slots) :
    chain.detachChecked others nodes slot = .ok (chain.detach nodes slot) := by
  obtain ⟨node, held⟩ := spells.linked.exists_node member
  obtain ⟨newest, newer⟩ := spells.newer_cases member held
  obtain ⟨oldest, older⟩ := spells.older_cases member held
  have counted : 0 < chain.length := by
    rw [spells.length_eq]
    exact List.length_pos_of_mem member
  -- Links are written in between, but no slot is vacated and nothing is counted.
  have cleared := (nodes.sameValues_setNewer slot none).trans
    (Nodes.sameValues_setOlder _ slot none)
  have bridged := cleared.trans (sameValues_bridgeNewer chain _ node)
  obtain ⟨sameOldest, sameLength⟩ :=
    chain.bridgeNewer_frame ((nodes.setNewer slot none).setOlder slot none) node
  rw [detachChecked, check_bind counted, demand_bind held,
    check_bind (spells.links_iff.mpr member), check_bind (beside.not_links member)]
  dsimp only
  rw [bridgeNewerChecked_eq newest fun other here => (cleared.isSome_get?_eq other).trans
      (newer other here), ok_bind,
    bridgeOlderChecked_eq (fun alone => sameOldest.trans (oldest alone)) fun other here =>
      (bridged.isSome_get?_eq other).trans (older other here), ok_bind,
    check_bind (by rwa [length_bridgeOlder, sameLength]), Chain.detach, held]
  rfl

/-- A chain without nodes does not unlink the node of another. -/
example :
    let (slot, owner, nodes) := Chain.empty.add (Arena.empty : Nodes Nat) 1
    Chain.empty.detachChecked [owner] nodes slot = .error .emptyChain := rfl

/-- A slot of the sequence can be moved: once unlinked it is in no chain but still occupied. -/
theorem moveToNewestChecked_eq (spells : chain.Spells nodes slots) (member : slot ∈ slots)
    (beside : Beside others nodes slots) :
    chain.moveToNewestChecked others nodes slot = .ok (chain.moveToNewest nodes slot) := by
  rw [moveToNewestChecked, Chain.moveToNewest]
  split
  · rfl
  · obtain ⟨left, right, rfl⟩ := List.append_of_mem member
    have live : (chain.detach nodes slot).2.isLive slot = true := by
      rw [Arena.isLive, (sameValues_detach chain nodes slot).isSome_get?_eq]
      exact spells.isLive member
    have apart := beside.congr fun other outside => spells.get?_detach outside
    rw [spells.detachChecked_eq member beside, ok_bind]
    exact spells.detach.attachChecked_eq live spells.not_mem_rest
      (apart.subset (List.cons_subset.mpr ⟨member, List.nil_subset _⟩))

/-- A value can always be added. -/
theorem addChecked_eq (wellFormed : nodes.WellFormed) (spells : chain.Spells nodes slots)
    (beside : Beside others nodes []) (value : α) :
    chain.addChecked others nodes value = .ok (chain.add nodes value) := by
  have added := Arena.get?_insert_self wellFormed (Node.detached value)
  have fresh := spells.add_handle_not_mem wellFormed value
  have kept := spells.inserted wellFormed value
  have live : (nodes.insert (.detached value)).2.isLive (nodes.insert (.detached value)).1 :=
    by rw [Arena.isLive, added, Option.isSome_some]
  rw [addChecked, wellFormed.insertChecked_eq, ok_bind]
  dsimp only
  rw [kept.attachChecked_eq live fresh (beside.insert wellFormed _)]
  rfl

/-- A slot of the sequence that is in no other chain can be given up. -/
theorem removeChecked_eq (wellFormed : nodes.WellFormed) (spells : chain.Spells nodes slots)
    (member : slot ∈ slots) (beside : Beside others nodes slots) {value : α}
    (held : nodes.value? slot = some value) :
    chain.removeChecked others nodes slot = .ok (value, (chain.remove nodes slot).2) := by
  have same := sameValues_detach chain nodes slot
  have kept : (chain.detach nodes slot).2.value? slot = some value :=
    (same.value?_eq slot).trans held
  obtain ⟨node, here, rfl⟩ := Option.map_eq_some_iff.mp kept
  rw [removeChecked, spells.detachChecked_eq member beside, ok_bind]
  dsimp only
  rw [(same.wellFormed wellFormed).removeChecked_eq here]
  rfl

/-- The oldest node can be removed, and there is one if there are any. -/
theorem removeOldestChecked_eq (wellFormed : nodes.WellFormed) (spells : chain.Spells nodes slots)
    (beside : Beside others nodes slots) :
    chain.removeOldestChecked others nodes = .ok (chain.removeOldest nodes) := by
  rw [removeOldestChecked, removeOldest]
  cases oldest : chain.oldest with
  | none =>
    rw [spells.oldest_eq, List.getLast?_eq_none_iff] at oldest
    exact check_bind (by rw [spells.length_eq, oldest, List.length_nil]) _
  | some slot =>
    rw [spells.oldest_eq] at oldest
    have member := List.mem_of_getLast? oldest
    obtain ⟨node, held⟩ := spells.linked.exists_node member
    have value : nodes.value? slot = some node.value := congrArg (Option.map Node.value) held
    dsimp only
    rw [spells.removeChecked_eq wellFormed member beside value, ok_bind, ← value,
      ← remove_answer chain]
    rfl

end Spells

end Chain

section Walks

variable {α : Type}

/-- The next value and the walk after it, or nothing at the end. The link that it follows must
lead to a node, and it must end exactly when all nodes are counted. -/
def Walk.nextChecked (walk : Walk) (nodes : Nodes α) : Except Fault (Option (α × Walk)) :=
  match walk.cursor with
  | none => do
    check (walk.remaining = 0) .miscountedWalk
    return none
  | some slot => do
    let node ← demand .brokenLink (nodes.get? slot)
    check (0 < walk.remaining) .miscountedWalk
    return some (node.value, ⟨node.newer, walk.remaining - 1⟩)

/-- Up to `limit` values and the walk after them. -/
def Walk.takeChecked (walk : Walk) (nodes : Nodes α) : Nat → Except Fault (List α × Walk)
  | 0 => return ([], walk)
  | limit + 1 => do
    match ← walk.nextChecked nodes with
    | none => return ([], walk)
    | some (value, rest) =>
      let (values, final) ← rest.takeChecked nodes limit
      return (value :: values, final)

/-- The values of a chain, least recently used first. The walk must reach the end. -/
def Chain.valuesChecked (chain : Chain) (nodes : Nodes α) : Except Fault (List α) := do
  let (values, final) ← chain.walk.takeChecked nodes nodes.slots.size
  check (final.cursor = none) .miscountedWalk
  return values

namespace Chain

/-- A walk along a chain may go as far as one likes. -/
def Walkable (chain : Chain) (nodes : Nodes α) : Prop :=
  ∀ limit, chain.walk.takeChecked nodes limit = .ok (chain.walk.take nodes limit)

variable {nodes : Nodes α} {slots : List SlotId} {older : Option SlotId}

/-- A walk from the end of a spelled sequence counts its nodes exactly, however far it goes. -/
theorem takeChecked_segment (segment : Segment nodes none slots older) (limit : Nat) :
    (Walk.mk slots.getLast? slots.length).takeChecked nodes limit =
      .ok ((Walk.mk slots.getLast? slots.length).take nodes limit) := by
  induction limit generalizing slots older with
  | zero => rfl
  | succ limit ih =>
    rcases List.eq_nil_or_concat slots with rfl | ⟨front, last, rfl⟩
    · rfl
    · rw [List.concat_eq_append] at segment ⊢
      obtain ⟨linkedFront, ⟨value, held⟩, _⟩ := Segment.append_iff.mp segment
      rw [List.getLast?_concat, List.length_append, List.length_singleton]
      have next : (Walk.mk (some last) (front.length + 1)).next? nodes =
          some (value, ⟨front.getLast?, front.length⟩) := by
        simp [Walk.next?, held]
      have stepped : (Walk.mk (some last) (front.length + 1)).nextChecked nodes =
          .ok (some (value, ⟨front.getLast?, front.length⟩)) := by
        dsimp only [Walk.nextChecked]
        rw [demand_bind held, check_bind (Nat.succ_pos _), Option.or_none]
        rfl
      rw [Walk.takeChecked, Walk.take, stepped, next, ok_bind]
      dsimp only
      rw [ih linkedFront]
      rfl

namespace Spells

variable {chain : Chain}

/-- A chain that spells a sequence can be walked along. -/
theorem walkable (spells : chain.Spells nodes slots) : chain.Walkable nodes := by
  intro limit
  rw [walk, spells.oldest_eq, spells.length_eq, takeChecked_segment spells.linked]

/-- A walk along a chain that spells a sequence reaches the end. -/
theorem valuesChecked_eq (spells : chain.Spells nodes slots) :
    chain.valuesChecked nodes = .ok (chain.values nodes) := by
  have whole : chain.walk.take nodes nodes.slots.size = _ :=
    (congrArg (Walk.take · nodes _) (by rw [walk, spells.oldest_eq])).trans
      (take_segment spells.linked spells.length_le _)
  rw [valuesChecked, values, Walk.values, spells.walkable, whole, ok_bind]
  rfl

end Spells

end Chain

end Walks

end EvictionCache
