import EvictionCache.Recency.Lemmas
import Mathlib.Data.List.Induction

/-!
# Walks to the end

A walk goes on as long as the link at its cursor leads to a node. `Walk.Yields` says what it
meets until then, with no bound on the number of steps, so a walk that yields anything comes to
an end. A walk along a chain that spells a sequence yields the values of the chain, and after
any number of steps it knows how many are left.
-/
namespace EvictionCache

universe u

variable {α : Type u} {nodes : Nodes α}

/-- A walk meets these values and ends after the last. -/
inductive Walk.Yields (nodes : Nodes α) : Walk → List α → Prop where
  /-- No node is left. -/
  | ends {walk : Walk} (finished : walk.next? nodes = none) : Yields nodes walk []
  /-- A value is met and then others. -/
  | meets {walk rest : Walk} {value : α} {values : List α}
      (met : walk.next? nodes = some (value, rest)) (later : Yields nodes rest values) :
      Yields nodes walk (value :: values)

/-- A number of steps meets as many of the values, and as many fewer are left. -/
theorem Walk.Yields.take {walk : Walk} {values : List α} (yields : walk.Yields nodes values)
    (steps : Nat) :
    (walk.take nodes steps).1 = values.take steps ∧
      (walk.take nodes steps).2.remaining = walk.remaining - min steps values.length := by
  induction yields generalizing steps with
  | ends finished =>
    cases steps with
    | zero => simp [Walk.take]
    | succ steps => simp [Walk.take, finished]
  | @meets walk rest value values met later ih =>
    cases steps with
    | zero => simp [Walk.take]
    | succ steps =>
      have fewer : rest.remaining = walk.remaining - 1 := by
        rw [Walk.next?] at met
        split at met
        · cases met
        · rw [Option.some.injEq, Prod.mk.injEq] at met
          rw [← met.2]
      obtain ⟨others, left⟩ := ih steps
      rw [Walk.take, met]
      refine ⟨congrArg (value :: ·) others, left.trans ?_⟩
      rw [fewer, List.length_cons]
      omega

/-- A walk from the end of a spelled sequence yields its values. -/
theorem Segment.yields {slots : List SlotId} {older : Option SlotId}
    (segment : Segment nodes none slots older) (remaining : Nat) :
    (Walk.mk slots.getLast? remaining).Yields nodes (slots.reverse.filterMap nodes.value?) := by
  induction slots using List.reverseRecOn generalizing older remaining with
  | nil => exact .ends rfl
  | append_singleton front last ih =>
    obtain ⟨linkedFront, ⟨value, held⟩, _⟩ := Segment.append_iff.mp segment
    have next : (Walk.mk (some last) remaining).next? nodes =
        some (value, ⟨front.getLast?, remaining - 1⟩) := by
      simp [Walk.next?, held]
    have found : nodes.value? last = some value := by rw [Nodes.value?, held]; rfl
    rw [List.getLast?_concat, List.reverse_concat, List.filterMap_cons, found]
    exact .meets next (ih linkedFront _)

/-- Every slot of a spelled sequence holds a value. -/
theorem Chain.Spells.exists_value {chain : Chain} {slots : List SlotId} {slot : SlotId}
    (spells : chain.Spells nodes slots) (member : slot ∈ slots) :
    ∃ value, nodes.value? slot = some value := by
  obtain ⟨node, held⟩ := spells.linked.exists_node member
  exact ⟨node.value, by rw [Nodes.value?, held]; rfl⟩

/-- The values of a chain are those in the slots of its sequence, one for each, oldest first. -/
theorem Chain.Spells.map_some_values {chain : Chain} {slots : List SlotId}
    (spells : chain.Spells nodes slots) :
    (chain.values nodes).map some = slots.reverse.map nodes.value? := by
  have held : ∀ slot ∈ slots.reverse, ∃ value, nodes.value? slot = some value :=
    fun slot member => spells.exists_value (List.mem_reverse.mp member)
  rw [spells.values_eq]
  generalize slots.reverse = visited at held ⊢
  induction visited with
  | nil => rfl
  | cons slot rest ih =>
    obtain ⟨value, found⟩ := held slot List.mem_cons_self
    have later := ih fun other member => held other (List.mem_cons_of_mem _ member)
    rw [List.filterMap_cons_some found, List.map_cons, List.map_cons, later, found]

/-- A walk along a chain that spells a sequence yields the values of the chain. -/
theorem Chain.Spells.yields {chain : Chain} {slots : List SlotId}
    (spells : chain.Spells nodes slots) : chain.walk.Yields nodes (chain.values nodes) := by
  rw [spells.values_eq, Chain.walk, spells.oldest_eq]
  exact spells.linked.yields _

end EvictionCache
