import EvictionCache.Proofs.Queue.Contents

/-!
# Keys come by insertion only

An entry keeps the key under which it was stored, spelled as it was then. So a spelling that a
queue holds after a call was held before, unless the call stored a value under a key that was
absent; then it is the spelling that was passed in (`Queue.spells_perform`).
-/
namespace EvictionCache.Queue

variable {κ ν ε ρ : Type} {policy : Policy} {queue next : Queue policy κ ν}

/-- Whether a queue has an entry that was stored under exactly this key. -/
def Spells (queue : Queue policy κ ν) (key : κ) : Prop := ∃ entry ∈ queue.entries, entry.key = key

/-- What is left of a queue is spelled as before. -/
theorem spells_of_sublist (sublist : next.entries.Sublist queue.entries) {key : κ}
    (spells : next.Spells key) : queue.Spells key := by
  obtain ⟨entry, member, same⟩ := spells
  exact ⟨entry, sublist.subset member, same⟩

/-- A new entry is spelled as it was passed in, and the others are as before. -/
theorem spells_join {key : κ} {value : ν} {spelling : κ}
    (spells : (queue.join key value).Spells spelling) : spelling = key ∨ queue.Spells spelling := by
  obtain ⟨entry, member, same⟩ := spells
  rcases List.mem_cons.mp ((policy.perm_place _ _).mem_iff.mp member) with rfl | kept
  · exact .inl same.symm
  · exact .inr ⟨entry, kept, same⟩

/-- Dropping the first entry leaves the others. -/
theorem dropFirst_append (queue : Queue policy κ ν) :
    queue.entries.head?.toList ++ queue.dropFirst.entries = queue.entries := by
  rw [dropFirst]
  cases queue.entries <;> rfl

/-- Making room takes the entry that it hands out from the front. -/
theorem makeRoom_append (queue : Queue policy κ ν) :
    queue.makeRoom.answer.toList ++ queue.makeRoom.state.entries = queue.entries := by
  unfold makeRoom
  split
  · exact queue.dropFirst_append
  · rfl

/-- Making room leaves the spellings of those that stay. -/
theorem spells_makeRoom {key : κ} (spells : queue.makeRoom.state.Spells key) :
    queue.Spells key := by
  have sublist := List.sublist_append_right queue.makeRoom.answer.toList
    queue.makeRoom.state.entries
  rw [queue.makeRoom_append] at sublist
  exact spells_of_sublist sublist spells

variable [BEq κ]

/-- An entry that is accessed keeps its spelling. -/
theorem spells_renew {key : κ} {entry : Entry κ ν policy.Metadata}
    (found : queue.find? key = some entry) {value : ν} {spelling : κ}
    (spells : (queue.renew entry value).Spells spelling) : queue.Spells spelling := by
  obtain ⟨other, member, same⟩ := spells
  rcases List.mem_cons.mp ((policy.perm_place _ _).mem_iff.mp member) with rfl | kept
  · exact ⟨entry, List.mem_of_find?_eq_some found, same⟩
  · exact ⟨other, List.mem_of_mem_filter kept, same⟩

/-- Working on the value of a key keeps all spellings, also if it was looked up under another. -/
theorem spells_visit {key : κ} {action : ν → ν × ρ} {spelling : κ}
    (spells : (queue.visit key action).state.Spells spelling) : queue.Spells spelling := by
  rw [visit] at spells
  cases found : queue.find? key with
  | none =>
    rw [found] at spells
    exact spells
  | some entry =>
    rw [found] at spells
    exact spells_renew found spells

/-- Storing a value brings in the spelling that was passed in if the key is absent, and no other
spelling. -/
theorem spells_insert {key : κ} {value : ν} {spelling : κ}
    (spells : (queue.insert key value).state.Spells spelling) :
    spelling = key ∧ queue.find? key = none ∨ queue.Spells spelling := by
  rw [insert] at spells
  cases found : queue.find? key with
  | some entry =>
    rw [found] at spells
    exact .inr (spells_renew found spells)
  | none =>
    rw [found] at spells
    have joined : (queue.makeRoom.state.join key value).Spells spelling := spells
    exact (spells_join joined).imp (fun same => ⟨same, rfl⟩) spells_makeRoom

/-- A call brings in the spelling under which it stores an absent key, and no other. -/
theorem spells_perform [BEq ν] {call : Call κ ν ε ρ} (single : call.Single) {spelling : κ}
    (spells : (queue.perform call).state.Spells spelling) :
    (call.stores = true ∧ call.key? = some spelling ∧ queue.find? spelling = none) ∨
      queue.Spells spelling := by
  cases call with
  | get | getMut | getWith | getMutWith => exact .inr (spells_visit spells)
  | put key value | push key value =>
    refine (spells_insert spells).imp_left fun ⟨same, absent⟩ => ?_
    rw [same]
    exact ⟨rfl, rfl, absent⟩
  | extend => exact absurd single id
  | remove => exact .inr (spells_of_sublist List.filter_sublist spells)
  | pop => exact .inr (spells_of_sublist (List.tail_sublist _) spells)
  | clear => exact .inr (spells_of_sublist (List.nil_sublist _) spells)
  | peek | frequency | containsKey | containsValue | isEmpty | size | capacity | candidate
  | toList => exact .inr spells

end EvictionCache.Queue
