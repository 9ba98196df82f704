import EvictionCache.Slot.Arena

/-!
# Laws of slot arenas

An arena is well formed when its free stack lists each free slot once and its size counts the
occupied slots. Every operation keeps that, and its effect on the map from handles to values is:
`insert` adds the handle it returns, `remove` drops its handle, `modify` changes the value of its
handle, and no other handle is touched.
-/
namespace EvictionCache.Arena

universe u

variable {α : Type u}

/-- The free stack lists exactly the free slots, each once, and the size counts the others. -/
structure WellFormed (arena : Arena α) : Prop where
  /-- No slot is listed twice. -/
  free_nodup : arena.free.Nodup
  /-- Exactly the free slots are listed. -/
  mem_free_iff : ∀ index, index ∈ arena.free ↔ arena.slots[index]? = some none
  /-- The occupied slots are counted. -/
  size_eq : arena.size = arena.slots.countP Option.isSome

/-- An arena without slots has nothing on its free stack. -/
theorem wellFormed_empty : (empty : Arena α).WellFormed where
  free_nodup := List.nodup_nil
  mem_free_iff index := by simp [empty]
  size_eq := rfl

/-- A slot is occupied when the array holds a value there. -/
theorem get?_eq_some_iff {arena : Arena α} {slot : SlotId} {value : α} :
    arena.get? slot = some value ↔ arena.slots[slot.index]? = some (some value) := by
  rw [get?, Option.join_eq_some_iff]

/-- A slot is not occupied when it is free or was never there. -/
theorem get?_eq_none_iff {arena : Arena α} {slot : SlotId} :
    arena.get? slot = none ↔
      arena.slots[slot.index]? = none ∨ arena.slots[slot.index]? = some none := by
  rw [get?]
  cases arena.slots[slot.index]? with
  | none => simp
  | some content => simp

/-- A change reaches the value in its own slot only. -/
theorem get?_modify (arena : Arena α) (slot other : SlotId) (change : α → α) :
    (arena.modify slot change).get? other =
      if other = slot then (arena.get? slot).map change else arena.get? other := by
  obtain ⟨index⟩ := slot
  obtain ⟨position⟩ := other
  simp only [get?, modify, Array.getElem?_modify, SlotId.mk.injEq]
  by_cases same : position = index
  · subst same
    cases arena.slots[position]? with
    | none => simp
    | some content => simp
  · simp [same, Ne.symm same]

/-- Changes that do the same to the value in a slot are the same. -/
theorem modify_congr {arena : Arena α} {slot : SlotId} {one other : α → α}
    (same : ∀ value, arena.get? slot = some value → one value = other value) :
    arena.modify slot one = arena.modify slot other := by
  have slots : arena.slots.modify slot.index (Option.map one) =
      arena.slots.modify slot.index (Option.map other) := by
    apply Array.ext_getElem?
    intro position
    rw [Array.getElem?_modify, Array.getElem?_modify]
    split
    · next here =>
      subst here
      rcases held : arena.slots[slot.index]? with _ | _ | value
      · rfl
      · rfl
      · exact congrArg (fun value => some (some value)) (same value (get?_eq_some_iff.mpr held))
    · rfl
  exact congrArg (fun slots => { arena with slots }) slots

/-- A change that leaves the value in a slot as it is changes nothing. -/
theorem modify_eq_self {arena : Arena α} {slot : SlotId} {change : α → α}
    (same : ∀ value, arena.get? slot = some value → change value = value) :
    arena.modify slot change = arena := by
  have kept : arena.modify slot change = arena.modify slot id := modify_congr same
  have slots : arena.slots.modify slot.index (Option.map id) = arena.slots := by
    apply Array.ext_getElem?
    intro position
    rw [Array.getElem?_modify, Option.map_id]
    split <;> simp
  rw [kept]
  exact congrArg (fun slots => { arena with slots }) slots

/-- Changes to one slot come one after the other. -/
theorem modify_modify (arena : Arena α) (slot : SlotId) (first second : α → α) :
    (arena.modify slot first).modify slot second = arena.modify slot (second ∘ first) := by
  have slots : (arena.slots.modify slot.index (Option.map first)).modify slot.index
      (Option.map second) = arena.slots.modify slot.index (Option.map (second ∘ first)) := by
    apply Array.ext_getElem?
    intro position
    simp only [Array.getElem?_modify]
    split
    · rw [Option.map_map, Option.map_comp_map]
    · rfl
  exact congrArg (fun slots => { arena with slots }) slots

/-- Changes to two slots may be made in either order. -/
theorem modify_comm (arena : Arena α) {slot other : SlotId} (apart : slot ≠ other)
    (first second : α → α) :
    (arena.modify slot first).modify other second =
      (arena.modify other second).modify slot first := by
  have distinct : slot.index ≠ other.index := fun same => apart (SlotId.ext same)
  have slots : (arena.slots.modify slot.index (Option.map first)).modify other.index
      (Option.map second) = (arena.slots.modify other.index (Option.map second)).modify
        slot.index (Option.map first) := by
    apply Array.ext_getElem?
    intro position
    simp only [Array.getElem?_modify]
    by_cases here : slot.index = position
    · have elsewhere : ¬other.index = position := fun there => distinct (here.trans there.symm)
      simp only [if_pos here, if_neg elsewhere]
    · simp only [if_neg here]
  exact congrArg (fun slots => { arena with slots }) slots

/-- A change keeps the free stack and the size. -/
theorem WellFormed.modify {arena : Arena α} (wellFormed : arena.WellFormed) (slot : SlotId)
    (change : α → α) : (arena.modify slot change).WellFormed where
  free_nodup := wellFormed.free_nodup
  mem_free_iff index := by
    rw [show (arena.modify slot change).free = arena.free from rfl, wellFormed.mem_free_iff]
    simp only [Arena.modify, Array.getElem?_modify]
    split <;> simp_all [Option.map_eq_some_iff]
  size_eq := by
    have occupied : (arena.modify slot change).slots.map Option.isSome =
        arena.slots.map Option.isSome := by
      apply Array.ext_getElem?
      intro index
      simp only [Arena.modify, Array.getElem?_map, Array.getElem?_modify]
      split
      · cases arena.slots[index]? <;> simp
      · rfl
    have counts := congrArg (Array.countP id) occupied
    simp only [Array.countP_map, Function.id_comp] at counts
    rw [counts]
    exact wellFormed.size_eq

/-- Removing answers what the slot held. -/
@[simp] theorem remove_answer (arena : Arena α) (slot : SlotId) :
    (arena.remove slot).1 = arena.get? slot := by
  rw [remove]
  split <;> simp_all

/-- Removing from a slot that is not occupied changes nothing. -/
theorem remove_of_none {arena : Arena α} {slot : SlotId} (vacant : arena.get? slot = none) :
    arena.remove slot = (none, arena) := by
  rw [remove, vacant]

/-- Removing drops its own handle only. -/
theorem get?_remove (arena : Arena α) (slot other : SlotId) :
    (arena.remove slot).2.get? other = if other = slot then none else arena.get? other := by
  cases held : arena.get? slot with
  | none =>
    rw [remove_of_none held]
    split
    · next same => rw [same, held]
    · rfl
  | some value =>
    rw [remove, held]
    obtain ⟨index⟩ := slot
    obtain ⟨position⟩ := other
    simp only [get?, Array.getElem?_setIfInBounds, SlotId.mk.injEq]
    by_cases same : position = index
    · subst same
      by_cases inside : position < arena.slots.size <;> simp [inside]
    · simp [same, Ne.symm same]

/-- A removed slot goes on the free stack, where it was not before. -/
theorem WellFormed.remove {arena : Arena α} (wellFormed : arena.WellFormed) (slot : SlotId) :
    (arena.remove slot).2.WellFormed := by
  cases held : arena.get? slot with
  | none => rwa [remove_of_none held]
  | some value =>
    have content := get?_eq_some_iff.mp held
    have inside : slot.index < arena.slots.size :=
      (Array.getElem?_eq_some_iff.mp content).1
    have fresh : slot.index ∉ arena.free := by
      intro listed
      rw [wellFormed.mem_free_iff, content] at listed
      simp at listed
    rw [Arena.remove, held]
    refine ⟨List.nodup_cons.mpr ⟨fresh, wellFormed.free_nodup⟩, fun index => ?_, ?_⟩
    · simp only [List.mem_cons, wellFormed.mem_free_iff, Array.getElem?_setIfInBounds]
      by_cases same : slot.index = index
      · subst same
        simp [inside]
      · simp [same, Ne.symm same]
    · have occupied : arena.slots[slot.index].isSome = true := by
        rw [(Array.getElem?_eq_some_iff.mp content).2]
        rfl
      simp only [Array.setIfInBounds_def, inside, dif_pos, Array.countP_set, occupied, if_pos,
        Option.isSome_none, Bool.false_eq_true, if_false, Nat.add_zero]
      rw [wellFormed.size_eq]

/-- The handle that inserting returns was not live. -/
theorem get?_insert_handle {arena : Arena α} (wellFormed : arena.WellFormed) (value : α) :
    arena.get? (arena.insert value).1 = none := by
  rw [insert]
  split
  · next index rest stack =>
    exact get?_eq_none_iff.mpr
      (.inr ((wellFormed.mem_free_iff index).mp (stack ▸ List.mem_cons_self)))
  · exact get?_eq_none_iff.mpr (.inl (by simp))

/-- Inserting adds the handle it returns and touches no other. -/
theorem get?_insert {arena : Arena α} (wellFormed : arena.WellFormed) (value : α)
    (other : SlotId) :
    (arena.insert value).2.get? other =
      if other = (arena.insert value).1 then some value else arena.get? other := by
  obtain ⟨position⟩ := other
  rw [insert]
  split
  · next index rest stack =>
    have inside : index < arena.slots.size :=
      (Array.getElem?_eq_some_iff.mp
        ((wellFormed.mem_free_iff index).mp (stack ▸ List.mem_cons_self))).1
    simp only [get?, Array.getElem?_setIfInBounds, SlotId.mk.injEq]
    by_cases same : position = index
    · subst same
      simp [inside]
    · simp [same, Ne.symm same]
  · simp only [get?, Array.getElem?_push, SlotId.mk.injEq]
    split <;> simp_all

/-- The handle that inserting returns leads to the value. -/
theorem get?_insert_self {arena : Arena α} (wellFormed : arena.WellFormed) (value : α) :
    (arena.insert value).2.get? (arena.insert value).1 = some value := by
  rw [get?_insert wellFormed, if_pos rfl]

/-- A taken slot leaves the free stack, and a new one never was on it. -/
theorem WellFormed.insert {arena : Arena α} (wellFormed : arena.WellFormed) (value : α) :
    (arena.insert value).2.WellFormed := by
  rw [Arena.insert]
  split
  · next index rest stack =>
    have nodup := wellFormed.free_nodup
    rw [stack] at nodup
    obtain ⟨absent, nodup⟩ := List.nodup_cons.mp nodup
    obtain ⟨inside, vacant⟩ := Array.getElem?_eq_some_iff.mp
      ((wellFormed.mem_free_iff index).mp (stack ▸ List.mem_cons_self))
    refine ⟨nodup, fun position => ?_, ?_⟩
    · simp only [Array.getElem?_setIfInBounds]
      by_cases same : index = position
      · subst same
        simp [inside, absent]
      · rw [if_neg same, ← wellFormed.mem_free_iff, stack, List.mem_cons]
        simp [Ne.symm same]
    · simp [Array.setIfInBounds_def, inside, Array.countP_set, vacant, wellFormed.size_eq]
  · next stack =>
    refine ⟨List.nodup_nil, fun position => ?_, ?_⟩
    · have listed := wellFormed.mem_free_iff position
      rw [stack] at listed
      rw [Array.getElem?_push]
      split <;> simp_all
    · simp [wellFormed.size_eq]

/-- As many contents pass a test as there are positions of such contents. -/
theorem countP_eq_length_positions {contents : Array (Option α)} {test : Option α → Bool}
    {positions : List Nat} (nodup : positions.Nodup)
    (mem_iff : ∀ index, index ∈ positions ↔ contents[index]?.any test = true) :
    contents.countP test = positions.length := by
  have flags : contents.toList.map test =
      (List.range contents.size).map fun index => contents[index]?.any test := by
    apply List.ext_getElem?
    intro index
    rw [List.getElem?_map, Array.getElem?_toList, List.getElem?_map]
    by_cases inside : index < contents.size
    · rw [List.getElem?_range inside, Array.getElem?_eq_getElem inside]
      simp [inside]
    · rw [List.getElem?_eq_none (by simpa using inside), Array.getElem?_eq_none (by omega)]
      rfl
  have chosen : ((List.range contents.size).filter fun index =>
      contents[index]?.any test).Perm positions := by
    refine (List.perm_ext_iff_of_nodup (List.nodup_range.filter _) nodup).mpr fun index => ?_
    rw [List.mem_filter, List.mem_range, mem_iff]
    refine and_iff_right_of_imp fun passes => ?_
    obtain ⟨content, held, _⟩ := (Option.any_eq_true ..).mp passes
    exact (Array.getElem?_eq_some_iff.mp held).1
  calc contents.countP test
      = (contents.toList.map test).countP id := by
        rw [List.countP_map, Function.id_comp, Array.countP_toList]
    _ = ((List.range contents.size).filter fun index => contents[index]?.any test).length := by
        rw [flags, List.countP_map, List.countP_eq_length_filter]
        rfl
    _ = positions.length := chosen.length_eq

/-- The size of an arena is the length of any list that names each occupied slot once. -/
theorem WellFormed.size_eq_length {arena : Arena α} (wellFormed : arena.WellFormed)
    {slots : List SlotId} (nodup : slots.Nodup)
    (live : ∀ slot, slot ∈ slots ↔ arena.isLive slot = true) : arena.size = slots.length := by
  have positions : slots.map SlotId.index |>.Nodup :=
    List.pairwise_map.mpr (nodup.imp fun apart same => apart (SlotId.ext same))
  rw [wellFormed.size_eq, ← List.length_map SlotId.index]
  apply countP_eq_length_positions positions
  intro index
  have occupied : arena.isLive ⟨index⟩ = arena.slots[index]?.any Option.isSome := by
    rw [isLive, get?]
    rcases arena.slots[index]? with _ | _ | value <;> rfl
  rw [← occupied, ← live, List.mem_map]
  constructor
  · rintro ⟨slot, member, rfl⟩
    exact member
  · exact fun member => ⟨_, member, rfl⟩

/-- An arena with an occupied slot counts a value. -/
theorem WellFormed.size_pos {arena : Arena α} (wellFormed : arena.WellFormed) {slot : SlotId}
    {value : α} (held : arena.get? slot = some value) : 0 < arena.size := by
  have content := get?_eq_some_iff.mp held
  rw [wellFormed.size_eq, Array.countP_pos_iff]
  exact ⟨some value, Array.mem_of_getElem? content, rfl⟩

/-- Every slot is occupied or free. -/
theorem WellFormed.slots_size_eq {arena : Arena α} (wellFormed : arena.WellFormed) :
    arena.slots.size = arena.size + arena.free.length := by
  have vacant : arena.slots.countP (fun content => !content.isSome) = arena.free.length := by
    apply countP_eq_length_positions wellFormed.free_nodup
    intro index
    rw [wellFormed.mem_free_iff]
    rcases arena.slots[index]? with _ | _ | value <;> simp
  have parts : arena.slots.size = _ := Array.size_eq_countP_add_countP (p := Option.isSome)
  simp only [decide_not, Bool.decide_eq_true] at parts
  rw [wellFormed.size_eq, ← vacant]
  exact parts

end EvictionCache.Arena
