import EvictionCache.Proofs.Plain.Links

/-!
# Queues do what plain caches do

Whatever is asked of a queue and of a plain cache that keeps its history, both answer the same,
and the plain cache keeps the history of the queue that is left.
-/
namespace EvictionCache.PlainCache

variable {policy : Policy} {κ ν ε ρ α β : Type} [BEq κ]

/-- A plain cache that keeps the history of a queue. -/
def Recalls (plain : PlainCache policy κ ν) (queue : Queue policy κ ν) : Prop :=
  ∃ history : History policy κ ν, history.Links plain queue

/-- An operation on a plain cache that does what one on a queue does. -/
structure Accords (result : α × PlainCache policy κ ν) (outcome : Outcome (Queue policy κ ν) α) :
    Prop where
  /-- Both give the same answer. -/
  answer : result.1 = outcome.answer
  /-- The plain cache keeps the history of the queue that is left. -/
  state : result.2.Recalls outcome.state

/-- Answers may be changed in the same way. -/
theorem Accords.map {result : α × PlainCache policy κ ν} {outcome : Outcome (Queue policy κ ν) α}
    (accords : Accords result outcome) (change : α → β) :
    Accords (change result.1, result.2) (outcome.map change) :=
  ⟨congrArg change accords.answer, accords.state⟩

/-- A plain cache without slots keeps the history of a queue without entries. -/
theorem recalls_ofCapacity (capacity : Capacity) :
    (ofCapacity capacity : PlainCache policy κ ν).Recalls (.ofCapacity capacity) := by
  refine ⟨[], .nil _ _, .nil, rfl, rfl, fun slot single => ?_⟩
  cases policy <;> simp [Queue.ofCapacity, PlainSlot.frequency?, Policy.frequency?, Policy.first,
    Rank.initial, AccessCount.initial, single]

namespace Recalls

variable {plain : PlainCache policy κ ν} {queue : Queue policy κ ν}

/-- Looking finds the same if it finds the same in every history. -/
theorem silent (recalls : plain.Recalls queue) {found answer : α}
    (same : ∀ history : History policy κ ν, history.Links plain queue → found = answer) :
    Accords (found, plain) (.silent answer queue) := by
  obtain ⟨history, links⟩ := recalls
  exact ⟨same history links, history, links⟩

/-- Taking the first entry. -/
theorem takeFirst (recalls : plain.Recalls queue) :
    plain.takeFirst.1.map PlainSlot.pair = queue.entries.head?.map Entry.pair ∧
      plain.takeFirst.2.Recalls queue.dropFirst := by
  obtain ⟨history, links⟩ := recalls
  rw [← links.first?_pair, PlainCache.takeFirst, links.first?_eq]
  cases history with
  | nil =>
    have entries : queue.entries = [] := links.entries.symm
    refine ⟨rfl, [], links.sound, links.slots, ?_, links.capacity, links.single⟩
    rw [Queue.dropFirst, entries]
    rfl
  | cons cell rest => exact ⟨rfl, rest, links.dropFirst⟩

/-- Making room for another entry. -/
theorem makeRoom (recalls : plain.Recalls queue) :
    Accords (plain.makeRoom.1.map PlainSlot.pair, plain.makeRoom.2)
      (queue.makeRoom.map fun evicted => evicted.map Entry.pair) := by
  have full : plain.capacity ≤ plain.slots.length ↔ queue.capacity ≤ queue.entries.length := by
    obtain ⟨history, links⟩ := recalls
    rw [links.capacity, links.length_eq]
  simp only [PlainCache.makeRoom, Queue.makeRoom, full]
  split
  · exact ⟨recalls.takeFirst.1, recalls.takeFirst.2⟩
  · exact ⟨rfl, recalls⟩

/-- Removing every entry. -/
theorem clear (recalls : plain.Recalls queue) :
    Accords ((), { plain with slots := [] }) queue.clear := by
  obtain ⟨history, links⟩ := recalls
  exact ⟨rfl, [], links.clear⟩

variable [EquivBEq κ]

/-- Looking a key up. -/
theorem find?_map (recalls : plain.Recalls queue) (key : κ) {ofSlot : PlainSlot κ ν → α}
    {ofEntry : Entry κ ν policy.Metadata → α}
    (same : ∀ slot entry, slot.TellsOf entry → ofSlot slot = ofEntry entry) :
    (plain.find? key).map ofSlot = (queue.find? key).map ofEntry := by
  obtain ⟨history, links⟩ := recalls
  rcases links.find?_cases key with ⟨absent, also⟩ | ⟨cell, member, _, one, other⟩
  · rw [absent, also]
    rfl
  · rw [one, other]
    exact congrArg some (same cell.1 cell.2 (links.sound.tells cell member))

/-- Working on the value of a key. -/
theorem visit (recalls : plain.Recalls queue) (key : κ) (action : ν → ν × ρ) :
    Accords (plain.visit key action) (queue.visit key action) := by
  obtain ⟨history, links⟩ := recalls
  rw [PlainCache.visit, Queue.visit]
  rcases links.find?_cases key with ⟨absent, also⟩ | ⟨cell, member, same, one, other⟩
  · rw [absent, also]
    exact ⟨rfl, history, links⟩
  · rw [one, other]
    dsimp only
    rw [← (links.sound.tells cell member).value]
    exact ⟨rfl, _, links.renew member same fun value => (action value).1⟩

/-- Adding an entry under an absent key. -/
theorem addSlot (recalls : plain.Recalls queue) {key : κ} (absent : queue.find? key = none)
    (value : ν) : (plain.addSlot key value).Recalls (queue.join key value) := by
  obtain ⟨history, links⟩ := recalls
  exact ⟨_, links.join absent value⟩

/-- Storing a value. What is told of a slot has to be what is told of the pair that the slot
displaces. -/
theorem store (recalls : plain.Recalls queue) (key : κ) (value : ν)
    {ofPresent : PlainSlot κ ν → α} {ofDeleted : Option (PlainSlot κ ν) → α}
    {ofDisplaced : Option (Displaced κ ν) → α}
    (present : ∀ slot, ofPresent slot = ofDisplaced (some (.replaced key slot.value)))
    (deleted : ∀ found : Option (PlainSlot κ ν),
      ofDeleted found = ofDisplaced (found.map fun slot => .evicted slot.key slot.value)) :
    Accords (plain.store key value ofPresent ofDeleted)
      ((queue.insert key value).map ofDisplaced) := by
  have room := recalls.makeRoom
  obtain ⟨history, links⟩ := recalls
  rw [PlainCache.store, Queue.insert]
  rcases links.find?_cases key with ⟨absent, also⟩ | ⟨cell, member, same, one, other⟩
  · rw [absent, also]
    refine ⟨?_, room.state.addSlot (Queue.find?_makeRoom also) value⟩
    have evicted := congrArg (Option.map fun pair : κ × ν => Displaced.evicted pair.1 pair.2)
      room.answer
    dsimp only [Outcome.map] at evicted
    rw [Option.map_map, Option.map_map] at evicted
    exact (deleted _).trans (congrArg ofDisplaced evicted)
  · rw [one, other]
    dsimp only
    rw [← (links.sound.tells cell member).value]
    exact ⟨present cell.1, _, links.renew member same fun _ => value⟩

/-- Storing a value and asking for the value it replaced. -/
theorem put (recalls : plain.Recalls queue) (key : κ) (value : ν) :
    Accords (plain.put key value) (queue.put key value) :=
  recalls.store key value (fun _ => rfl) fun deleted => by cases deleted <;> rfl

/-- Storing a value and asking for the pair it displaced. -/
theorem push (recalls : plain.Recalls queue) (key : κ) (value : ν) :
    Accords (plain.push key value)
      ((queue.insert key value).map fun displaced => displaced.map Displaced.pair) :=
  recalls.store key value (fun _ => rfl) fun deleted => by cases deleted <;> rfl

/-- Storing several pairs. -/
theorem extend (recalls : plain.Recalls queue) (pairs : List (κ × ν)) :
    (plain.extend pairs).Recalls (queue.extend pairs).state := by
  induction pairs generalizing plain queue with
  | nil => exact recalls
  | cons pair rest ih => exact ih (recalls.put pair.1 pair.2).state

/-- Removing a key. -/
theorem remove (recalls : plain.Recalls queue) (key : κ) :
    Accords (plain.remove key) ((queue.removeEntry key).map fun pair => pair.map Prod.snd) := by
  obtain ⟨history, links⟩ := recalls
  rw [PlainCache.remove, Queue.removeEntry]
  rcases links.find?_cases key with ⟨absent, also⟩ | ⟨cell, member, same, one, other⟩
  · rw [absent, also, Queue.discard_of_find?_eq_none also]
    exact ⟨rfl, history, links⟩
  · rw [one, other]
    exact ⟨congrArg some (links.sound.tells cell member).value, _, links.discard member same⟩

variable [BEq ν]

/-- Every call. -/
theorem perform (recalls : plain.Recalls queue) (call : Call κ ν ε ρ) :
    Accords (plain.perform call) (queue.perform call) := by
  cases call with
  | get key => exact (recalls.visit key fun value => (value, value)).map Reply.value
  | getMut key write => exact (recalls.visit key fun value => (write value, value)).map Reply.value
  | getWith key result =>
    exact (recalls.visit key fun value => (value, result value)).map Reply.result
  | getMutWith key closure => exact (recalls.visit key closure.run).map Reply.result
  | peek key =>
    exact recalls.silent fun _ _ => congrArg _ (recalls.find?_map key fun _ _ tells => tells.value)
  | put key value => exact (recalls.put key value).map Reply.value
  | push key value => exact (recalls.push key value).map Reply.pair
  | extend pairs => exact ⟨rfl, recalls.extend pairs⟩
  | remove key => exact (recalls.remove key).map Reply.value
  | pop => exact ⟨congrArg _ recalls.takeFirst.1, recalls.takeFirst.2⟩
  | clear => exact recalls.clear.map fun _ => Reply.done
  | frequency key =>
    have counted := congrArg Option.join (recalls.find?_map key fun _ _ tells => tells.frequency)
    rw [← Option.bind_id_eq_join, Option.bind_map, ← Option.bind_id_eq_join, Option.bind_map]
      at counted
    exact recalls.silent fun _ _ => congrArg _ counted
  | containsKey key =>
    have known := congrArg Option.isSome (recalls.find?_map key fun _ _ tells => tells.key)
    rw [Option.isSome_map, Option.isSome_map] at known
    exact recalls.silent fun _ _ => congrArg _ known
  | containsValue value =>
    exact recalls.silent fun _ links => congrArg _ (links.any_value_eq value)
  | isEmpty =>
    refine recalls.silent fun _ links => congrArg _ ?_
    rw [Bool.eq_iff_iff, List.isEmpty_iff_length_eq_zero, List.isEmpty_iff_length_eq_zero,
      links.length_eq]
  | size => exact recalls.silent fun _ links => congrArg _ links.length_eq
  | capacity => exact recalls.silent fun _ links => congrArg _ links.capacity
  | candidate => exact recalls.silent fun _ links => congrArg _ links.first?_pair
  | toList =>
    exact recalls.silent fun _ links => congrArg _ <|
      links.map_ordered fun _ _ tells => tells.pair_eq

/-- Every run. -/
theorem run (recalls : plain.Recalls queue) (calls : List (Call κ ν ε ρ)) :
    Accords (plain.run calls) (queue.run calls) := by
  induction calls generalizing plain queue with
  | nil => exact ⟨rfl, recalls⟩
  | cons call rest ih =>
    have first := recalls.perform call
    have later := ih first.state
    exact ⟨congrArg₂ _ first.answer later.answer, later.state⟩

end Recalls

end EvictionCache.PlainCache
