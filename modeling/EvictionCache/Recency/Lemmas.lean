import EvictionCache.Recency.Walk
import EvictionCache.Slot.Lemmas

/-!
# Laws of recency chains

A chain stands for the sequence of its slots, newest first (`Chain.Spells`). Attaching puts a
slot in front of the sequence, detaching takes one out, moving does both, and a walk meets the
values of the sequence from its end. Relinking changes no value, and no node of a slot outside
the sequence, so chains that share an arena do not disturb each other.
-/
namespace EvictionCache

universe u

variable {α : Type u}

namespace Nodes

/-- Setting a newer link reaches its own node only. -/
theorem get?_setNewer (nodes : Nodes α) (slot other : SlotId) (newer : Option SlotId) :
    (nodes.setNewer slot newer).get? other =
      if other = slot then (nodes.get? slot).map fun node => { node with newer }
      else nodes.get? other :=
  Arena.get?_modify nodes slot other _

/-- Setting an older link reaches its own node only. -/
theorem get?_setOlder (nodes : Nodes α) (slot other : SlotId) (older : Option SlotId) :
    (nodes.setOlder slot older).get? other =
      if other = slot then (nodes.get? slot).map fun node => { node with older }
      else nodes.get? other :=
  Arena.get?_modify nodes slot other _

/-- Setting a newer link changes no value. -/
@[simp] theorem value?_setNewer (nodes : Nodes α) (slot other : SlotId)
    (newer : Option SlotId) : (nodes.setNewer slot newer).value? other = nodes.value? other := by
  rw [value?, value?, get?_setNewer]
  split
  · next same => cases held : nodes.get? slot <;> simp [same, held]
  · rfl

/-- Setting an older link changes no value. -/
@[simp] theorem value?_setOlder (nodes : Nodes α) (slot other : SlotId)
    (older : Option SlotId) : (nodes.setOlder slot older).value? other = nodes.value? other := by
  rw [value?, value?, get?_setOlder]
  split
  · next same => cases held : nodes.get? slot <;> simp [same, held]
  · rfl

/-- A slot is occupied when it holds a value. -/
theorem isLive_eq (nodes : Nodes α) (slot : SlotId) :
    nodes.isLive slot = (nodes.value? slot).isSome := by
  rw [Arena.isLive, value?, Option.isSome_map]

/-- Changing a value reaches its own node only and keeps the links there. -/
theorem get?_modifyValue (nodes : Nodes α) (slot other : SlotId) (change : α → α) :
    (nodes.modifyValue slot change).get? other =
      if other = slot then
        (nodes.get? slot).map fun node => { node with value := change node.value }
      else nodes.get? other :=
  Arena.get?_modify nodes slot other _

/-- Changing a value changes no other value. -/
theorem value?_modifyValue (nodes : Nodes α) (slot other : SlotId) (change : α → α) :
    (nodes.modifyValue slot change).value? other =
      if other = slot then (nodes.value? slot).map change else nodes.value? other := by
  rw [value?, get?_modifyValue]
  split
  · rw [value?, Option.map_map, Option.map_map]
    rfl
  · rfl

/-- Two arenas of nodes that differ in links alone: the same slots are free, in the same order,
and the others hold the same values. -/
structure SameValues (nodes other : Nodes α) : Prop where
  /-- The same slots are free, in the same order. -/
  free_eq : other.free = nodes.free
  /-- The same number of slots is occupied. -/
  size_eq : other.size = nodes.size
  /-- The same slots exist. -/
  slots_size_eq : other.slots.size = nodes.slots.size
  /-- The occupied slots hold the same values. -/
  value?_eq : ∀ slot, other.value? slot = nodes.value? slot

namespace SameValues

/-- Nothing differs. -/
theorem refl (nodes : Nodes α) : SameValues nodes nodes := ⟨rfl, rfl, rfl, fun _ => rfl⟩

/-- Differing in links alone twice is differing in links alone. -/
theorem trans {first second third : Nodes α} (one : SameValues first second)
    (two : SameValues second third) : SameValues first third where
  free_eq := two.free_eq.trans one.free_eq
  size_eq := two.size_eq.trans one.size_eq
  slots_size_eq := two.slots_size_eq.trans one.slots_size_eq
  value?_eq slot := (two.value?_eq slot).trans (one.value?_eq slot)

/-- The same slots are occupied. -/
theorem isSome_get?_eq {nodes other : Nodes α} (same : SameValues nodes other) (slot : SlotId) :
    (other.get? slot).isSome = (nodes.get? slot).isSome := by
  have values := congrArg Option.isSome (same.value?_eq slot)
  simpa only [value?, Option.isSome_map] using values

/-- Links play no part in whether an arena is well formed. -/
theorem wellFormed {nodes other : Nodes α} (same : SameValues nodes other)
    (wellFormed : nodes.WellFormed) : other.WellFormed := by
  have occupied : other.slots.map Option.isSome = nodes.slots.map Option.isSome := by
    apply Array.ext_getElem?
    intro index
    have here := same.isSome_get?_eq ⟨index⟩
    have slots := same.slots_size_eq
    simp only [Arena.get?, Array.getElem?_map] at here ⊢
    by_cases inside : index < nodes.slots.size
    · rw [Array.getElem?_eq_getElem inside, Array.getElem?_eq_getElem (slots ▸ inside)] at here ⊢
      simpa using here
    · rw [Array.getElem?_eq_none (Nat.le_of_not_lt inside),
        Array.getElem?_eq_none (slots ▸ Nat.le_of_not_lt inside)]
  refine ⟨same.free_eq ▸ wellFormed.free_nodup, fun index => ?_, ?_⟩
  · have here := congrArg (fun flags => flags[index]?) occupied
    simp only [Array.getElem?_map] at here
    rw [same.free_eq, wellFormed.mem_free_iff]
    cases left : nodes.slots[index]? with
    | none => simp_all
    | some content =>
      cases right : other.slots[index]? with
      | none => simp_all
      | some moved => cases content <;> cases moved <;> simp_all
  · have counts := congrArg (Array.countP id) occupied
    simp only [Array.countP_map, Function.id_comp] at counts
    rw [same.size_eq, wellFormed.size_eq, counts]

end SameValues

/-- A newer link is only a link. -/
theorem sameValues_setNewer (nodes : Nodes α) (slot : SlotId) (newer : Option SlotId) :
    SameValues nodes (nodes.setNewer slot newer) :=
  ⟨rfl, rfl, by simp [setNewer, Arena.modify], fun _ => value?_setNewer ..⟩

/-- An older link is only a link. -/
theorem sameValues_setOlder (nodes : Nodes α) (slot : SlotId) (older : Option SlotId) :
    SameValues nodes (nodes.setOlder slot older) :=
  ⟨rfl, rfl, by simp [setOlder, Arena.modify], fun _ => value?_setOlder ..⟩

end Nodes

/-- A stretch of nodes, newest first, that are linked to each other one after another, and at
its ends to the given neighbours. -/
def Segment (nodes : Nodes α) : (newer : Option SlotId) → List SlotId → (older : Option SlotId) →
    Prop
  | _, [], _ => True
  | newer, slot :: rest, older =>
    (∃ value, nodes.get? slot = some ⟨value, newer, rest.head?.or older⟩) ∧
      Segment nodes (some slot) rest older

namespace Segment

/-- Two stretches in a row are one. -/
theorem append_iff {nodes : Nodes α} {newer older : Option SlotId} {left right : List SlotId} :
    Segment nodes newer (left ++ right) older ↔
      Segment nodes newer left (right.head?.or older) ∧
        Segment nodes (left.getLast?.or newer) right older := by
  induction left generalizing newer with
  | nil => simp [Segment]
  | cons slot rest ih =>
    simp only [List.cons_append, Segment, ih, and_assoc]
    cases rest with
    | nil => simp
    | cons next rest => simp [List.getLast?_cons]

/-- A stretch is linked in every arena that holds its nodes unchanged. -/
theorem congr {nodes other : Nodes α} {newer older : Option SlotId} {slots : List SlotId}
    (segment : Segment nodes newer slots older)
    (same : ∀ slot ∈ slots, other.get? slot = nodes.get? slot) :
    Segment other newer slots older := by
  induction slots generalizing newer with
  | nil => trivial
  | cons slot rest ih =>
    obtain ⟨⟨value, held⟩, linked⟩ := segment
    exact ⟨⟨value, by rw [same slot List.mem_cons_self, held]⟩,
      ih linked fun slot member => same slot (List.mem_cons_of_mem _ member)⟩

/-- Every node of a stretch is in an occupied slot. -/
theorem exists_node {nodes : Nodes α} {newer older : Option SlotId} {slots : List SlotId}
    (segment : Segment nodes newer slots older) {slot : SlotId} (member : slot ∈ slots) :
    ∃ node, nodes.get? slot = some node := by
  induction slots generalizing newer with
  | nil => cases member
  | cons first rest ih =>
    obtain ⟨⟨value, held⟩, linked⟩ := segment
    rcases List.mem_cons.mp member with rfl | member
    · exact ⟨_, held⟩
    · exact ih linked member

/-- A stretch stays linked when values change. -/
theorem modifyValue {nodes : Nodes α} {newer older : Option SlotId} {slots : List SlotId}
    (segment : Segment nodes newer slots older) (changed : SlotId) (change : α → α) :
    Segment (nodes.modifyValue changed change) newer slots older := by
  induction slots generalizing newer with
  | nil => trivial
  | cons slot rest ih =>
    obtain ⟨⟨value, held⟩, linked⟩ := segment
    refine ⟨?_, ih linked⟩
    rw [Nodes.get?_modifyValue]
    split
    · next same => exact ⟨change value, by rw [← same, held]; rfl⟩
    · exact ⟨value, held⟩

end Segment

/-- A chain spells a sequence of slots, newest first: its ends and its length are those of the
sequence, and the nodes are linked in that order. -/
structure Chain.Spells (chain : Chain) (nodes : Nodes α) (slots : List SlotId) : Prop where
  /-- The newest end is the first slot. -/
  newest_eq : chain.newest = slots.head?
  /-- The oldest end is the last slot. -/
  oldest_eq : chain.oldest = slots.getLast?
  /-- The length is that of the sequence. -/
  length_eq : chain.length = slots.length
  /-- No slot occurs twice. -/
  nodup : slots.Nodup
  /-- Neighbours are linked to each other, and the ends to nothing. -/
  linked : Segment nodes none slots none

namespace Chain

/-- Following a link to an occupied slot leads there. -/
theorem follow_some {nodes : Nodes α} {slot : SlotId} {node : Node α}
    (held : nodes.get? slot = some node) : follow nodes (some slot) = some slot := by
  simp [follow, Option.filter, Arena.isLive, held]

@[simp] theorem follow_none {nodes : Nodes α} : follow nodes none = none := rfl

/-- The empty chain spells the empty sequence. -/
theorem spells_empty (nodes : Nodes α) : Chain.empty.Spells nodes [] :=
  ⟨rfl, rfl, rfl, List.nodup_nil, trivial⟩

/-- What a chain spells depends on the nodes of its own slots only. -/
theorem Spells.congr {chain : Chain} {nodes other : Nodes α} {slots : List SlotId}
    (spells : chain.Spells nodes slots)
    (same : ∀ slot ∈ slots, other.get? slot = nodes.get? slot) : chain.Spells other slots :=
  { spells with linked := spells.linked.congr same }

/-- What a chain spells does not depend on the values. -/
theorem Spells.modifyValue {chain : Chain} {nodes : Nodes α} {slots : List SlotId}
    (spells : chain.Spells nodes slots) (changed : SlotId) (change : α → α) :
    chain.Spells (nodes.modifyValue changed change) slots :=
  { spells with linked := spells.linked.modifyValue changed change }

/-- The node of a slot in a spelled sequence is linked to its neighbours there. -/
theorem Spells.node_eq {chain : Chain} {nodes : Nodes α} {left right : List SlotId}
    {slot : SlotId} (spells : chain.Spells nodes (left ++ slot :: right)) :
    ∃ value, nodes.get? slot = some ⟨value, left.getLast?, right.head?⟩ := by
  obtain ⟨_, ⟨value, held⟩, _⟩ := Segment.append_iff.mp spells.linked
  exact ⟨value, by simpa using held⟩

/-- A slot of a spelled sequence is not in the rest of it. -/
theorem Spells.not_mem_rest {chain : Chain} {nodes : Nodes α} {left right : List SlotId}
    {slot : SlotId} (spells : chain.Spells nodes (left ++ slot :: right)) :
    slot ∉ left ++ right := by
  obtain ⟨_, nodupFrom, disjoint⟩ := List.nodup_append.mp spells.nodup
  simp only [List.mem_append, not_or]
  exact ⟨fun member => disjoint slot member slot List.mem_cons_self rfl,
    (List.nodup_cons.mp nodupFrom).1⟩

section Attach

/-- Attaching changes links only. -/
theorem sameValues_attach (chain : Chain) (nodes : Nodes α) (slot : SlotId) :
    nodes.SameValues (chain.attach nodes slot).2 := by
  rw [attach]
  split
  · have relinked := (nodes.sameValues_setNewer slot none).trans
      (Nodes.sameValues_setOlder _ slot chain.newest)
    dsimp only
    split
    · exact relinked.trans (Nodes.sameValues_setNewer ..)
    · exact relinked
  · exact .refl nodes

/-- Attaching puts a slot in front of the sequence. -/
theorem Spells.attach {chain : Chain} {nodes : Nodes α} {slots : List SlotId}
    (spells : chain.Spells nodes slots) {slot : SlotId} {node : Node α}
    (held : nodes.get? slot = some node) (detached : slot ∉ slots) :
    (chain.attach nodes slot).1.Spells (chain.attach nodes slot).2 (slot :: slots) := by
  have live : nodes.isLive slot = true := by simp [Arena.isLive, held]
  rw [Chain.attach, if_pos live]
  cases slots with
  | nil =>
    simp only [spells.newest_eq, List.head?_nil, follow_none]
    refine ⟨rfl, rfl, by simp [spells.length_eq], by simp, ?_, trivial⟩
    exact ⟨node.value, by simp [Nodes.get?_setNewer, Nodes.get?_setOlder, held]⟩
  | cons second rest =>
    have apart : second ≠ slot := fun same => detached (same ▸ List.mem_cons_self)
    obtain ⟨⟨value, heldSecond⟩, linked⟩ := spells.linked
    have heldAfter : ((nodes.setNewer slot none).setOlder slot (some second)).get? second =
        some ⟨value, none, rest.head?.or none⟩ := by
      simp [Nodes.get?_setNewer, Nodes.get?_setOlder, apart, heldSecond]
    simp only [spells.newest_eq, List.head?_cons, follow_some heldAfter]
    refine ⟨rfl, ?_, ?_, List.nodup_cons.mpr ⟨detached, spells.nodup⟩, ?_, ?_, ?_⟩
    · simp [spells.oldest_eq, List.getLast?_cons]
    · simp [spells.length_eq]
    · exact ⟨node.value, by
        simp [Nodes.get?_setNewer, Nodes.get?_setOlder, held, Ne.symm apart]⟩
    · exact ⟨value, by simp [Nodes.get?_setNewer, heldAfter]⟩
    · refine linked.congr fun other member => ?_
      have notSecond : other ≠ second := fun same =>
        (List.nodup_cons.mp spells.nodup).1 (same ▸ member)
      have notSlot : other ≠ slot := fun same =>
        detached (same ▸ List.mem_cons_of_mem _ member)
      simp [Nodes.get?_setNewer, Nodes.get?_setOlder, notSecond, notSlot]

/-- Attaching to a spelled sequence changes the node of no slot outside it. -/
theorem Spells.get?_attach {chain : Chain} {nodes : Nodes α} {slots : List SlotId}
    (spells : chain.Spells nodes slots) {slot other : SlotId} (apart : other ≠ slot)
    (outside : other ∉ slots) :
    (chain.attach nodes slot).2.get? other = nodes.get? other := by
  rw [Chain.attach]
  split
  · dsimp only
    split
    · next second found =>
      have isSecond := (Option.filter_eq_some_iff.mp found).1
      rw [spells.newest_eq] at isSecond
      have notSecond : other ≠ second := fun same =>
        outside (same ▸ List.mem_of_mem_head? isSecond)
      simp [Nodes.get?_setNewer, Nodes.get?_setOlder, apart, notSecond]
    · simp [Nodes.get?_setNewer, Nodes.get?_setOlder, apart]
  · rfl

end Attach

section Detach

/-- Bridging changes links only. -/
theorem sameValues_bridgeNewer (chain : Chain) (nodes : Nodes α) (node : Node α) :
    nodes.SameValues (chain.bridgeNewer nodes node).2 := by
  rw [bridgeNewer]
  split
  · exact Nodes.sameValues_setOlder ..
  · exact .refl nodes

/-- Bridging changes links only. -/
theorem sameValues_bridgeOlder (chain : Chain) (nodes : Nodes α) (node : Node α) :
    nodes.SameValues (chain.bridgeOlder nodes node).2 := by
  rw [bridgeOlder]
  split
  · exact Nodes.sameValues_setNewer ..
  · exact .refl nodes

/-- Detaching changes links only. -/
theorem sameValues_detach (chain : Chain) (nodes : Nodes α) (slot : SlotId) :
    nodes.SameValues (chain.detach nodes slot).2 := by
  rw [detach]
  split
  · exact .refl nodes
  · exact (((nodes.sameValues_setNewer slot none).trans
      (Nodes.sameValues_setOlder _ slot none)).trans
        (sameValues_bridgeNewer ..)).trans (sameValues_bridgeOlder ..)

/-- Bridging on the newer side relinks the last node of the stretch before, or the newest end if
there is none, and touches nothing else. -/
theorem bridgeNewer_segment (chain : Chain) {nodes : Nodes α} {left : List SlotId}
    {newer older : Option SlotId} (node : Node α) (nodup : left.Nodup)
    (segment : Segment nodes newer left older) (newerEq : node.newer = left.getLast?) :
    Segment (chain.bridgeNewer nodes node).2 newer left node.older ∧
      (∀ other, other ∉ left →
        (chain.bridgeNewer nodes node).2.get? other = nodes.get? other) ∧
      (chain.bridgeNewer nodes node).1 =
        { chain with newest := if left = [] then node.older else chain.newest } := by
  rcases List.eq_nil_or_concat left with rfl | ⟨front, last, rfl⟩
  · rw [bridgeNewer, newerEq]
    exact ⟨trivial, fun _ _ => rfl, rfl⟩
  · simp only [List.concat_eq_append] at nodup segment newerEq ⊢
    obtain ⟨linkedFront, ⟨value, held⟩, _⟩ := Segment.append_iff.mp segment
    rw [bridgeNewer, newerEq, List.getLast?_concat, follow_some held]
    refine ⟨Segment.append_iff.mpr ⟨?_, ?_, trivial⟩, fun other absent => ?_, by simp⟩
    · refine linkedFront.congr fun other member => ?_
      have apart : other ≠ last := fun same =>
        (List.nodup_append.mp nodup).2.2 other member last (by simp) same
      simp [Nodes.get?_setOlder, apart]
    · exact ⟨value, by simp [Nodes.get?_setOlder, held]⟩
    · have apart : other ≠ last := fun same => absent (by simp [same])
      simp [Nodes.get?_setOlder, apart]

/-- Bridging on the older side relinks the first node of the stretch after, or the oldest end if
there is none, and touches nothing else. -/
theorem bridgeOlder_segment (chain : Chain) {nodes : Nodes α} {right : List SlotId}
    {newer older : Option SlotId} (node : Node α) (nodup : right.Nodup)
    (segment : Segment nodes newer right older) (olderEq : node.older = right.head?) :
    Segment (chain.bridgeOlder nodes node).2 node.newer right older ∧
      (∀ other, other ∉ right →
        (chain.bridgeOlder nodes node).2.get? other = nodes.get? other) ∧
      (chain.bridgeOlder nodes node).1 =
        { chain with oldest := if right = [] then node.newer else chain.oldest } := by
  cases right with
  | nil =>
    rw [bridgeOlder, olderEq]
    exact ⟨trivial, fun _ _ => rfl, rfl⟩
  | cons first rest =>
    obtain ⟨⟨value, held⟩, linked⟩ := segment
    rw [bridgeOlder, olderEq, List.head?_cons, follow_some held]
    refine ⟨⟨⟨value, by simp [Nodes.get?_setNewer, held]⟩, ?_⟩, fun other absent => ?_, by simp⟩
    · refine linked.congr fun other member => ?_
      have apart : other ≠ first := fun same =>
        (List.nodup_cons.mp nodup).1 (same ▸ member)
      simp [Nodes.get?_setNewer, apart]
    · have apart : other ≠ first := fun same => absent (by simp [same])
      simp [Nodes.get?_setNewer, apart]

/-- Detaching takes a slot out of the sequence, leaves its node without neighbours and changes
the node of no slot outside the sequence. -/
theorem Spells.detach_and_frame {chain : Chain} {nodes : Nodes α} {left right : List SlotId}
    {slot : SlotId} (spells : chain.Spells nodes (left ++ slot :: right)) :
    (chain.detach nodes slot).1.Spells (chain.detach nodes slot).2 (left ++ right) ∧
      (∀ other, other ∉ left ++ slot :: right →
        (chain.detach nodes slot).2.get? other = nodes.get? other) ∧
      (chain.detach nodes slot).2.get? slot = (nodes.value? slot).map Node.detached := by
  obtain ⟨linkedLeft, ⟨value, held⟩, linkedRight⟩ := Segment.append_iff.mp spells.linked
  obtain ⟨nodupLeft, nodupFrom, disjoint⟩ := List.nodup_append.mp spells.nodup
  obtain ⟨absentRight, nodupRight⟩ := List.nodup_cons.mp nodupFrom
  have absentLeft : slot ∉ left := fun member =>
    disjoint slot member slot List.mem_cons_self rfl
  simp only [Option.or_none, List.head?_cons] at linkedLeft held
  simp only [Chain.detach, held]
  have cleared : ∀ other, other ≠ slot →
      ((nodes.setNewer slot none).setOlder slot none).get? other = nodes.get? other := by
    intro other apart
    simp [Nodes.get?_setNewer, Nodes.get?_setOlder, apart]
  have clearedSlot : ((nodes.setNewer slot none).setOlder slot none).get? slot =
      (nodes.value? slot).map Node.detached := by
    simp [Nodes.get?_setNewer, Nodes.get?_setOlder, Nodes.value?, held, Node.detached]
  have clearedLeft := linkedLeft.congr fun other member =>
    cleared other fun same => absentLeft (same ▸ member)
  have clearedRight := linkedRight.congr fun other member =>
    cleared other fun same => absentRight (same ▸ member)
  generalize (nodes.setNewer slot none).setOlder slot none = unlinked
    at cleared clearedSlot clearedLeft clearedRight ⊢
  obtain ⟨bridgedLeft, keptRight, chainNewer⟩ := bridgeNewer_segment chain
    ⟨value, left.getLast?, right.head?⟩ nodupLeft clearedLeft rfl
  have pendingRight := clearedRight.congr fun other member =>
    keptRight other fun memberLeft => disjoint other memberLeft other
      (List.mem_cons_of_mem _ member) rfl
  generalize chain.bridgeNewer unlinked ⟨value, left.getLast?, right.head?⟩ = newerSide
    at bridgedLeft keptRight chainNewer pendingRight ⊢
  obtain ⟨middle, between⟩ := newerSide
  obtain ⟨bridgedRight, keptLeft, chainOlder⟩ := bridgeOlder_segment middle
    ⟨value, left.getLast?, right.head?⟩ nodupRight pendingRight rfl
  have settledLeft := bridgedLeft.congr fun other member =>
    keptLeft other fun memberRight => disjoint other member other
      (List.mem_cons_of_mem _ memberRight) rfl
  generalize middle.bridgeOlder between ⟨value, left.getLast?, right.head?⟩ = olderSide
    at settledLeft bridgedRight keptLeft chainOlder ⊢
  obtain ⟨last, final⟩ := olderSide
  simp only at chainNewer chainOlder settledLeft bridgedRight keptRight keptLeft ⊢
  subst chainNewer chainOlder
  refine ⟨⟨?_, ?_, ?_, ?_, ?_⟩, fun other outside => ?_, ?_⟩
  · cases left <;> simp [spells.newest_eq]
  · cases right <;> simp [spells.oldest_eq, List.getLast?_append, List.getLast?_cons_cons]
  · simp [spells.length_eq]
  · exact List.nodup_append.mpr ⟨nodupLeft, nodupRight, fun one memberLeft other memberRight =>
      disjoint one memberLeft other (List.mem_cons_of_mem _ memberRight)⟩
  · exact Segment.append_iff.mpr ⟨by simpa using settledLeft, by simpa using bridgedRight⟩
  · simp only [List.mem_append, List.mem_cons, not_or] at outside
    rw [keptLeft other outside.2.2, keptRight other outside.1, cleared other outside.2.1]
  · rw [keptLeft slot absentRight, keptRight slot absentLeft, clearedSlot]

/-- Detaching takes a slot out of the sequence. -/
theorem Spells.detach {chain : Chain} {nodes : Nodes α} {left right : List SlotId}
    {slot : SlotId} (spells : chain.Spells nodes (left ++ slot :: right)) :
    (chain.detach nodes slot).1.Spells (chain.detach nodes slot).2 (left ++ right) :=
  spells.detach_and_frame.1

/-- Detaching from a spelled sequence changes the node of no slot outside it. -/
theorem Spells.get?_detach {chain : Chain} {nodes : Nodes α} {left right : List SlotId}
    {slot other : SlotId} (spells : chain.Spells nodes (left ++ slot :: right))
    (outside : other ∉ left ++ slot :: right) :
    (chain.detach nodes slot).2.get? other = nodes.get? other :=
  spells.detach_and_frame.2.1 other outside

/-- Detaching from a spelled sequence leaves a node without neighbours. -/
theorem Spells.get?_detach_self {chain : Chain} {nodes : Nodes α} {left right : List SlotId}
    {slot : SlotId} (spells : chain.Spells nodes (left ++ slot :: right)) :
    (chain.detach nodes slot).2.get? slot = (nodes.value? slot).map Node.detached :=
  spells.detach_and_frame.2.2

end Detach

section Move

/-- Moving changes links only. -/
theorem sameValues_moveToNewest (chain : Chain) (nodes : Nodes α) (slot : SlotId) :
    nodes.SameValues (chain.moveToNewest nodes slot).2 := by
  rw [moveToNewest]
  split
  · exact .refl nodes
  · exact (sameValues_detach ..).trans (sameValues_attach ..)

/-- Moving takes a slot to the front of the sequence. -/
theorem Spells.moveToNewest {chain : Chain} {nodes : Nodes α} {left right : List SlotId}
    {slot : SlotId} (spells : chain.Spells nodes (left ++ slot :: right)) :
    (chain.moveToNewest nodes slot).1.Spells (chain.moveToNewest nodes slot).2
      (slot :: (left ++ right)) := by
  rw [Chain.moveToNewest]
  split
  · next isNewest =>
    cases left with
    | nil => exact spells
    | cons first rest =>
      rw [spells.newest_eq] at isNewest
      have same : first = slot := by simpa using isNewest
      subst same
      exact absurd spells.nodup (by simp)
  · obtain ⟨value, held⟩ := spells.node_eq
    have stays : ((chain.detach nodes slot).2.value? slot).isSome = true := by
      rw [(sameValues_detach chain nodes slot).value?_eq, Nodes.value?, held]
      rfl
    obtain ⟨node, heldAfter⟩ :=
      Option.isSome_iff_exists.mp ((Nodes.isLive_eq ..).trans stays)
    exact spells.detach.attach heldAfter spells.not_mem_rest

/-- Moving changes the node of no slot outside the sequence. -/
theorem Spells.get?_moveToNewest {chain : Chain} {nodes : Nodes α} {left right : List SlotId}
    {slot other : SlotId} (spells : chain.Spells nodes (left ++ slot :: right))
    (outside : other ∉ left ++ slot :: right) :
    (chain.moveToNewest nodes slot).2.get? other = nodes.get? other := by
  rw [Chain.moveToNewest]
  split
  · rfl
  · simp only [List.mem_append, List.mem_cons, not_or] at outside
    rw [spells.detach.get?_attach outside.2.1 (by simp [outside]),
      spells.get?_detach (by simp [outside])]

end Move

section Store

/-- The handle of an added value was not in any sequence. -/
theorem Spells.add_handle_not_mem {chain : Chain} {nodes : Nodes α} {slots : List SlotId}
    (wellFormed : nodes.WellFormed) (spells : chain.Spells nodes slots) (value : α) :
    (chain.add nodes value).1 ∉ slots := by
  intro member
  obtain ⟨node, held⟩ := spells.linked.exists_node member
  have vacant := Arena.get?_insert_handle wellFormed (Node.detached value)
  rw [show (chain.add nodes value).1 = (nodes.insert (.detached value)).1 from rfl] at held
  rw [held] at vacant
  cases vacant

/-- A value that takes a vacant slot changes no sequence. -/
theorem Spells.inserted {chain : Chain} {nodes : Nodes α} {slots : List SlotId}
    (wellFormed : nodes.WellFormed) (spells : chain.Spells nodes slots) (value : α) :
    chain.Spells (nodes.insert (.detached value)).2 slots :=
  spells.congr fun slot member => by
    rw [Arena.get?_insert wellFormed, if_neg]
    rintro rfl
    exact spells.add_handle_not_mem wellFormed value member

/-- Adding puts the handle of the new value in front of the sequence. -/
theorem Spells.add {chain : Chain} {nodes : Nodes α} {slots : List SlotId}
    (wellFormed : nodes.WellFormed) (spells : chain.Spells nodes slots) (value : α) :
    (chain.add nodes value).2.1.Spells (chain.add nodes value).2.2
      ((chain.add nodes value).1 :: slots) := by
  have kept := spells.inserted wellFormed value
  exact kept.attach (Arena.get?_insert_self wellFormed _)
    (spells.add_handle_not_mem wellFormed value)

/-- Adding changes the node of no other slot outside the sequence. -/
theorem Spells.get?_add {chain : Chain} {nodes : Nodes α} {slots : List SlotId}
    (wellFormed : nodes.WellFormed) (spells : chain.Spells nodes slots) {value : α}
    {other : SlotId} (apart : other ≠ (chain.add nodes value).1) (outside : other ∉ slots) :
    (chain.add nodes value).2.2.get? other = nodes.get? other := by
  have kept := spells.inserted wellFormed value
  exact (kept.get?_attach apart outside).trans
    ((Arena.get?_insert wellFormed _ _).trans (if_neg apart))

/-- Adding stores the value under its handle and changes no other value. -/
theorem value?_add {nodes : Nodes α} (wellFormed : nodes.WellFormed) (chain : Chain) (value : α)
    (other : SlotId) :
    (chain.add nodes value).2.2.value? other =
      if other = (chain.add nodes value).1 then some value else nodes.value? other := by
  have same := (sameValues_attach chain (nodes.insert (.detached value)).2
    (nodes.insert (.detached value)).1).value?_eq other
  rw [show (chain.add nodes value).2.2 = (chain.attach (nodes.insert (.detached value)).2
    (nodes.insert (.detached value)).1).2 from rfl, same, Nodes.value?,
    Arena.get?_insert wellFormed]
  change Option.map _ (if other = (nodes.insert (.detached value)).1 then _ else _) =
    if other = (nodes.insert (.detached value)).1 then _ else _
  split <;> rfl

/-- Adding keeps the arena well formed. -/
theorem wellFormed_add {nodes : Nodes α} (wellFormed : nodes.WellFormed) (chain : Chain)
    (value : α) : Arena.WellFormed (chain.add nodes value).2.2 :=
  (sameValues_attach ..).wellFormed (wellFormed.insert _)

/-- Removing answers the value of the slot. -/
theorem remove_answer (chain : Chain) (nodes : Nodes α) (slot : SlotId) :
    (chain.remove nodes slot).1 = nodes.value? slot := by
  rw [← (sameValues_detach chain nodes slot).value?_eq, Nodes.value?, ← Arena.remove_answer]
  rfl

/-- Removing takes a slot out of the sequence. -/
theorem Spells.remove {chain : Chain} {nodes : Nodes α} {left right : List SlotId}
    {slot : SlotId} (spells : chain.Spells nodes (left ++ slot :: right)) :
    (chain.remove nodes slot).2.1.Spells (chain.remove nodes slot).2.2 (left ++ right) := by
  refine spells.detach.congr fun other member => ?_
  have apart : other ≠ slot := fun same => spells.not_mem_rest (same ▸ member)
  exact (Arena.get?_remove ..).trans (if_neg apart)

/-- Removing changes the node of no slot outside the sequence. -/
theorem Spells.get?_remove {chain : Chain} {nodes : Nodes α} {left right : List SlotId}
    {slot other : SlotId} (spells : chain.Spells nodes (left ++ slot :: right))
    (outside : other ∉ left ++ slot :: right) :
    (chain.remove nodes slot).2.2.get? other = nodes.get? other := by
  have apart : other ≠ slot := fun same =>
    outside (same ▸ List.mem_append_right left List.mem_cons_self)
  exact ((Arena.get?_remove ..).trans (if_neg apart)).trans (spells.get?_detach outside)

/-- Removing drops the value of its slot and no other. -/
theorem value?_remove (chain : Chain) (nodes : Nodes α) (slot other : SlotId) :
    (chain.remove nodes slot).2.2.value? other =
      if other = slot then none else nodes.value? other := by
  rw [← (sameValues_detach chain nodes slot).value?_eq other]
  change Option.map Node.value (((chain.detach nodes slot).2.remove slot).2.get? other) = _
  rw [Arena.get?_remove]
  split <;> rfl

/-- Removing keeps the arena well formed. -/
theorem wellFormed_remove {nodes : Nodes α} (wellFormed : nodes.WellFormed) (chain : Chain)
    (slot : SlotId) : Arena.WellFormed (chain.remove nodes slot).2.2 :=
  ((sameValues_detach ..).wellFormed wellFormed).remove slot

/-- A chain without nodes has no oldest node to remove. -/
theorem Spells.removeOldest_nil {chain : Chain} {nodes : Nodes α}
    (spells : chain.Spells nodes []) : chain.removeOldest nodes = (none, chain, nodes) := by
  rw [removeOldest, spells.oldest_eq]
  rfl

/-- The oldest node is the last of the sequence. -/
theorem Spells.removeOldest_concat {chain : Chain} {nodes : Nodes α} {slots : List SlotId}
    {slot : SlotId} (spells : chain.Spells nodes (slots ++ [slot])) :
    chain.removeOldest nodes = chain.remove nodes slot := by
  rw [removeOldest, spells.oldest_eq, List.getLast?_concat]

end Store

section Walk

/-- A walk from the end of a spelled sequence meets its values and leaves nothing. -/
theorem take_segment {nodes : Nodes α} {slots : List SlotId} {older : Option SlotId}
    (segment : Segment nodes none slots older) {limit : Nat} (enough : slots.length ≤ limit)
    (remaining : Nat) :
    (Walk.mk slots.getLast? remaining).take nodes limit =
      (slots.reverse.filterMap nodes.value?, ⟨none, remaining - slots.length⟩) := by
  induction limit generalizing slots older remaining with
  | zero =>
    obtain rfl := List.eq_nil_of_length_eq_zero (Nat.le_zero.mp enough)
    simp [Walk.take]
  | succ limit ih =>
    rcases List.eq_nil_or_concat slots with rfl | ⟨front, last, rfl⟩
    · simp [Walk.take, Walk.next?]
    · simp only [List.concat_eq_append] at segment enough ⊢
      obtain ⟨linkedFront, ⟨value, held⟩, _⟩ := Segment.append_iff.mp segment
      simp only [List.length_append, List.length_singleton] at enough
      have next : (Walk.mk (some last) remaining).next? nodes =
          some (value, ⟨front.getLast?, remaining - 1⟩) := by
        simp [Walk.next?, held]
      rw [List.getLast?_concat, Walk.take, next]
      simp only [ih linkedFront (by omega)]
      simp [Nodes.value?, held, Nat.sub_sub, Nat.add_comm]

/-- A spelled sequence is no longer than the arena has slots. -/
theorem Spells.length_le {chain : Chain} {nodes : Nodes α} {slots : List SlotId}
    (spells : chain.Spells nodes slots) : slots.length ≤ nodes.slots.size := by
  have indices : (slots.map SlotId.index).Nodup :=
    List.pairwise_map.mpr (spells.nodup.imp fun apart same => apart (SlotId.ext same))
  have inside : slots.map SlotId.index ⊆ List.range nodes.slots.size := by
    intro index member
    obtain ⟨slot, listed, rfl⟩ := List.mem_map.mp member
    obtain ⟨node, held⟩ := spells.linked.exists_node listed
    exact List.mem_range.mpr (Array.getElem?_eq_some_iff.mp (Arena.get?_eq_some_iff.mp held)).1
  simpa using indices.length_le_of_subset inside

/-- The values of a chain are those of its sequence, oldest first. -/
theorem Spells.values_eq {chain : Chain} {nodes : Nodes α} {slots : List SlotId}
    (spells : chain.Spells nodes slots) :
    chain.values nodes = slots.reverse.filterMap nodes.value? := by
  rw [values, walk, Walk.values, spells.oldest_eq, take_segment spells.linked spells.length_le]

end Walk

end Chain

end EvictionCache
