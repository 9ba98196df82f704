import EvictionCache.Proofs.Cache.Books
import EvictionCache.Proofs.Checked.Store

/-!
# Caches that check what they rely on

A checked operation of a cache demands an entry wherever the index has found a key, a first entry
wherever the index has keys, and the key in the index of every entry that leaves. A cache in order
meets no fault in any call, so the fallbacks of the plain operations are never taken.
-/
namespace EvictionCache

/-- Continues from the state of an outcome with checked steps. -/
def Outcome.andThenChecked {σ α β : Type} (outcome : Outcome σ α)
    (next : α → σ → Except Fault (Outcome σ β)) : Except Fault (Outcome σ β) := do
  let continued ← next outcome.answer outcome.state
  return ⟨continued.answer, continued.state, outcome.events ++ continued.events⟩

/-- A continuation without a fault continues as the plain one. -/
theorem Outcome.andThenChecked_eq {σ α β : Type} {outcome : Outcome σ α}
    {next : α → σ → Except Fault (Outcome σ β)} {plain : α → σ → Outcome σ β}
    (same : next outcome.answer outcome.state = .ok (plain outcome.answer outcome.state)) :
    outcome.andThenChecked next = .ok (outcome.andThen plain) := by
  rw [andThenChecked, same]
  rfl

namespace Cache

variable {policy : Policy} {κ ν ε ρ : Type} [BEq κ] [Hashable κ]

section Looking

/-- The entry of a key. What the index finds must be there. -/
def entryChecked (cache : Cache policy κ ν) (key : κ) :
    Except Fault (Option (Entry κ ν policy.Metadata)) :=
  match cache.index[key]? with
  | none => return none
  | some slot => do
    let entry ← policy.entryChecked cache.store slot
    return some entry

/-- The value of a key. -/
def peekChecked (cache : Cache policy κ ν) (key : κ) : Except Fault (Option ν) := do
  let entry ← cache.entryChecked key
  return entry.map Entry.value

/-- The access count of a key, if the policy keeps one. -/
def frequencyChecked (cache : Cache policy κ ν) (key : κ) : Except Fault (Option Nat) := do
  let entry ← cache.entryChecked key
  return entry.bind fun entry => policy.frequency? entry.metadata

/-- All pairs, in the order of eviction: one for each key of the index. -/
def toListChecked (cache : Cache policy κ ν) : Except Fault (List (κ × ν)) := do
  let entries ← policy.entriesChecked cache.store
  check (entries.length = cache.size) .miscountedStore
  return entries.map Entry.pair

/-- Whether any entry holds a value. -/
def containsValueChecked [BEq ν] (cache : Cache policy κ ν) (value : ν) : Except Fault Bool := do
  let pairs ← cache.toListChecked
  return pairs.any fun pair => pair.2 == value

/-- The pair that makes room for the next new key when the cache is full. -/
def candidateChecked (cache : Cache policy κ ν) : Except Fault (Option (κ × ν)) := do
  match ← policy.firstChecked cache.store with
  | none =>
    check (cache.index.isEmpty = true) .missingFirst
    return none
  | some slot =>
    let entry ← policy.entryChecked cache.store slot
    return some entry.pair

end Looking

section Accessing

/-- Counts an access to the entry in a slot and gives it its new place in the order. -/
def touchChecked (cache : Cache policy κ ν) (slot : SlotId) :
    Except Fault (Cache policy κ ν) := do
  let store ← policy.touchChecked cache.store slot
  let usage := policy.recordAccess cache.metrics.usage store slot
  return { cache with store, metrics := { cache.metrics with usage } }

/-- Replaces the value in a slot. -/
def setValueChecked (cache : Cache policy κ ν) (slot : SlotId) (value : ν) :
    Except Fault (Cache policy κ ν) := do
  let store ← policy.setValueChecked cache.store slot value
  return { cache with store }

/-- Looks a key up as an access. What the index finds must be there after the access. -/
def accessChecked (cache : Cache policy κ ν) (key : κ) :
    Except Fault (Option (SlotId × Entry κ ν policy.Metadata) × Cache policy κ ν) :=
  match cache.index[key]? with
  | none => return (none, cache.record .recordMiss)
  | some slot => do
    let cache ← (cache.record .recordHit).touchChecked slot
    let entry ← policy.entryChecked cache.store slot
    return (some (slot, entry), cache)

/-- The value of a key. Counts as an access. -/
def getChecked (cache : Cache policy κ ν) (key : κ) :
    Except Fault (Outcome (Cache policy κ ν) (Option ν)) := do
  let (found, cache) ← cache.accessChecked key
  return .silent (found.map fun hit => hit.2.value) cache

/-- Runs an action on the value of a key. Counts as an access. -/
def visitChecked (cache : Cache policy κ ν) (key : κ) (action : ν → ν × ρ) :
    Except Fault (Outcome (Cache policy κ ν) (Option ρ)) := do
  match ← cache.accessChecked key with
  | (none, cache) => return .silent none cache
  | (some (slot, entry), cache) =>
    let (value, result) := action entry.value
    let cache ← cache.setValueChecked slot value
    return .silent (some result) cache

end Accessing

section Storing

/-- Takes the first entry in the order of eviction out of store and index. There must be one if
the index has keys, and its key must be one of them. -/
def takeFirstChecked (cache : Cache policy κ ν) :
    Except Fault (Option (Entry κ ν policy.Metadata) × Cache policy κ ν) := do
  match ← policy.popFirstChecked cache.store with
  | (none, store) =>
    check (cache.index.isEmpty = true) .missingFirst
    return (none, { cache with store })
  | (some entry, store) =>
    check (cache.containsKey entry.key = true) .missingKey
    return (some entry, recordShape { cache with store, index := cache.index.erase entry.key })

/-- Evicts one entry if the cache is full. There must be one. -/
def makeRoomChecked (cache : Cache policy κ ν) :
    Except Fault (Outcome (Cache policy κ ν) (Option (Entry κ ν policy.Metadata))) :=
  if cache.capacity ≤ cache.size then do
    match ← cache.takeFirstChecked with
    | (none, _) => .error .missingFirst
    | (some entry, cache) => return ⟨some entry, cache.record .recordEviction, [.evicted policy]⟩
  else return .silent none cache

/-- Adds an entry under a key that is not in the index. -/
def addEntryChecked (cache : Cache policy κ ν) (key : κ) (value : ν) :
    Except Fault (Cache policy κ ν) := do
  check (cache.containsKey key = false) .takenKey
  let (slot, store) ← policy.addChecked cache.store key value
  return recordShape
    { cache.record .recordInsertion with store, index := cache.index.insert key slot }

/-- Replaces the value in the slot of a present key. Counts as an access. -/
def replaceChecked (cache : Cache policy κ ν) (slot : SlotId) (key : κ) (value : ν) :
    Except Fault (Outcome (Cache policy κ ν) (Option (Displaced κ ν))) := do
  let cache ← (cache.record .recordUpdate).touchChecked slot
  let entry ← policy.entryChecked cache.store slot
  let cache ← cache.setValueChecked slot value
  return .silent (some (.replaced key entry.value)) cache

/-- Stores a value under a key and returns what it displaced. -/
def insertChecked (cache : Cache policy κ ν) (key : κ) (value : ν) :
    Except Fault (Outcome (Cache policy κ ν) (Option (Displaced κ ν))) :=
  match cache.index[key]? with
  | some slot => cache.replaceChecked slot key value
  | none => do
    let room ← cache.makeRoomChecked
    room.andThenChecked fun evicted cache => do
      let cache ← cache.addEntryChecked key value
      return .silent (evicted.map fun entry => .evicted entry.key entry.value) cache

/-- Stores a value under a key and returns the value it replaced. -/
def putChecked (cache : Cache policy κ ν) (key : κ) (value : ν) :
    Except Fault (Outcome (Cache policy κ ν) (Option ν)) := do
  let stored ← cache.insertChecked key value
  return stored.map fun displaced => displaced.bind Displaced.replacedValue?

/-- Stores a value under a key and returns the pair that left the cache. -/
def pushChecked (cache : Cache policy κ ν) (key : κ) (value : ν) :
    Except Fault (Outcome (Cache policy κ ν) (Option (κ × ν))) := do
  let stored ← cache.insertChecked key value
  return stored.map fun displaced => displaced.map Displaced.pair

/-- Stores pairs one after another. -/
def extendChecked (cache : Cache policy κ ν) :
    List (κ × ν) → Except Fault (Outcome (Cache policy κ ν) Unit)
  | [] => return .silent () cache
  | pair :: rest => do
    let stored ← cache.putChecked pair.1 pair.2
    stored.andThenChecked fun _ cache => cache.extendChecked rest

end Storing

section Removing

/-- Removes a key and returns its pair under the stored spelling. Once the key is erased from the
index its entry must be there. -/
def removeEntryChecked (cache : Cache policy κ ν) (key : κ) :
    Except Fault (Outcome (Cache policy κ ν) (Option (κ × ν))) :=
  match cache.index[key]? with
  | none => return .silent none cache
  | some slot => do
    let index := cache.index.erase key
    let (entry, store) ← policy.removeChecked cache.store slot
    return .silent (some entry.pair)
      (recordShape { cache.record .recordRemoval with index, store })

/-- Removes a key and returns its value. -/
def removeChecked (cache : Cache policy κ ν) (key : κ) :
    Except Fault (Outcome (Cache policy κ ν) (Option ν)) := do
  let removed ← cache.removeEntryChecked key
  return removed.map fun pair => pair.map Prod.snd

/-- Removes and returns the first pair in the order of eviction, as a removal on request. -/
def popChecked (cache : Cache policy κ ν) :
    Except Fault (Outcome (Cache policy κ ν) (Option (κ × ν))) := do
  match ← cache.takeFirstChecked with
  | (none, cache) => return .silent none cache
  | (some entry, cache) => return .silent (some entry.pair) (cache.record .recordRemoval)

end Removing

section Calls

variable [BEq ν]

/-- Carries out one call. Clearing and the calls that only ask the index rely on nothing. -/
def performChecked (cache : Cache policy κ ν) (call : Call κ ν ε ρ) :
    Except Fault (Outcome (Cache policy κ ν) (Reply κ ν ε ρ)) :=
  match call with
  | .get key => return (← cache.getChecked key).map .value
  | .getMut key write =>
    return (← cache.visitChecked key fun value => (write value, value)).map .value
  | .getWith key result =>
    return (← cache.getChecked key).map fun value => .result (value.map result)
  | .getMutWith key closure => return (← cache.visitChecked key closure.run).map .result
  | .peek key => return .silent (.value (← cache.peekChecked key)) cache
  | .put key value => return (← cache.putChecked key value).map .value
  | .push key value => return (← cache.pushChecked key value).map .pair
  | .extend pairs => return (← cache.extendChecked pairs).map fun _ => .done
  | .remove key => return (← cache.removeChecked key).map .value
  | .pop => return (← cache.popChecked).map .pair
  | .frequency key => return .silent (.count (← cache.frequencyChecked key)) cache
  | .containsValue value => return .silent (.truth (← cache.containsValueChecked value)) cache
  | .candidate => return .silent (.pair (← cache.candidateChecked)) cache
  | .toList => return .silent (.pairs (← cache.toListChecked)) cache
  | .clear | .containsKey _ | .isEmpty | .size | .capacity => return cache.perform call

/-- Carries out calls one after another and collects their answers. -/
def runChecked (cache : Cache policy κ ν) :
    List (Call κ ν ε ρ) → Except Fault (Outcome (Cache policy κ ν) (List (Reply κ ν ε ρ)))
  | [] => return .silent [] cache
  | call :: rest => do
    let performed ← cache.performChecked call
    performed.andThenChecked fun reply cache => do
      let later ← cache.runChecked rest
      return later.map fun replies => reply :: replies

end Calls

namespace Lists

variable {cache : Cache policy κ ν} {listing : Listing (Entry κ ν policy.Metadata)}
  {slot : SlotId} {entry : Entry κ ν policy.Metadata}

/-- A listed entry can be accessed. -/
theorem touchChecked_eq (lists : cache.Lists listing) (member : (slot, entry) ∈ listing) :
    cache.touchChecked slot = .ok (cache.touch slot) := by
  rw [touchChecked, lists.store.touchChecked_eq member]
  rfl

/-- The value of a listed entry can be replaced. -/
theorem setValueChecked_eq (lists : cache.Lists listing) (member : (slot, entry) ∈ listing)
    (value : ν) : cache.setValueChecked slot value = .ok (cache.setValue slot value) := by
  rw [setValueChecked, lists.store.setValueChecked_eq member]
  rfl

/-- After an access the entry is listed in its slot with what it carries then. -/
theorem exists_mem_touch (lists : cache.Lists listing) (member : (slot, entry) ∈ listing)
    (counted : CoreMetrics → CoreMetrics) :
    ∃ others, ((cache.record counted).touch slot).Lists others ∧
      (slot, entry.withMetadata (policy.accessed entry.metadata)) ∈ others := by
  have recorded : (cache.record counted).Lists listing := lists.withMetrics _
  exact ⟨_, recorded.touch member, (Policy.placeCell_perm _ _).mem_iff.mpr List.mem_cons_self⟩

/-- A cache that lists nothing has no keys. -/
theorem isEmpty_index {cache : Cache policy κ ν} (lists : cache.Lists []) :
    cache.index.isEmpty = true := by
  rw [Std.HashMap.isEmpty_eq_size_eq_zero, show cache.index.size = 0 from lists.size_eq]
  rfl

/-- As many entries are listed as the index has keys. -/
theorem toListChecked_eq (lists : cache.Lists listing) :
    cache.toListChecked = .ok cache.toList := by
  have counted : (policy.entries cache.store).length = cache.size := by
    rw [lists.store.entries_eq, List.length_map, lists.size_eq]
  rw [toListChecked, lists.store.entriesChecked_eq, ok_bind, check_bind counted]
  rfl

/-- The first entry is there if there are keys. -/
theorem candidateChecked_eq (lists : cache.Lists listing) :
    cache.candidateChecked = .ok cache.candidate? := by
  rw [candidateChecked, lists.store.firstChecked_eq, candidate?, lists.store.first?_eq]
  cases listing with
  | nil => exact check_bind lists.isEmpty_index _
  | cons cell rest =>
    have member : cell ∈ cell :: rest := List.mem_cons_self
    simp only [List.head?_cons, Option.map_some, Option.bind_some, ok_bind]
    rw [lists.store.entryChecked_eq member, lists.entryAt?_eq member]
    rfl

/-- Replacing the value of a present key meets no fault. -/
theorem replaceChecked_eq (lists : cache.Lists listing) (member : (slot, entry) ∈ listing)
    (key : κ) (value : ν) :
    cache.replaceChecked slot key value = .ok (cache.replace slot key value) := by
  obtain ⟨others, accessed, here⟩ := lists.exists_mem_touch member .recordUpdate
  have recorded : (cache.record .recordUpdate).Lists listing := lists.withMetrics _
  rw [replaceChecked, recorded.touchChecked_eq member, ok_bind,
    accessed.store.entryChecked_eq here, ok_bind, accessed.setValueChecked_eq here, replace,
    accessed.entryAt?_eq here]
  rfl

variable [EquivBEq κ]

/-- The entry that the index leads to is there. -/
theorem entryChecked_eq (lists : cache.Lists listing) (key : κ) :
    cache.entryChecked key = .ok (cache.entry? key) := by
  rw [entryChecked, Cache.entry?]
  cases found : cache.index[key]? with
  | none => rfl
  | some slot =>
    obtain ⟨entry, member, _⟩ := lists.exists_entry found
    dsimp only
    rw [lists.store.entryChecked_eq member, ok_bind, Option.bind_some, lists.entryAt?_eq member]
    rfl

/-- An access meets no fault. -/
theorem accessChecked_eq (lists : cache.Lists listing) (key : κ) :
    cache.accessChecked key = .ok (cache.access key) := by
  rw [accessChecked]
  cases found : cache.index[key]? with
  | none => rw [access_of_none found]; rfl
  | some slot =>
    obtain ⟨entry, member, _⟩ := lists.exists_entry found
    obtain ⟨others, accessed, here⟩ := lists.exists_mem_touch member .recordHit
    have recorded : (cache.record .recordHit).Lists listing := lists.withMetrics _
    dsimp only
    rw [recorded.touchChecked_eq member, ok_bind, accessed.store.entryChecked_eq here,
      lists.access_of_some found member]
    rfl

/-- Reading the value of a key meets no fault. -/
theorem getChecked_eq (lists : cache.Lists listing) (key : κ) :
    cache.getChecked key = .ok (cache.get key) := by
  rw [getChecked, lists.accessChecked_eq]
  rfl

/-- Working on the value of a key meets no fault. -/
theorem visitChecked_eq (lists : cache.Lists listing) (key : κ) (action : ν → ν × ρ) :
    cache.visitChecked key action = .ok (cache.visit key action) := by
  rw [visitChecked, lists.accessChecked_eq, Cache.visit]
  cases found : cache.index[key]? with
  | none => rw [access_of_none found]; rfl
  | some slot =>
    obtain ⟨entry, member, _⟩ := lists.exists_entry found
    obtain ⟨others, accessed, here⟩ := lists.exists_mem_touch member .recordHit
    rw [lists.access_of_some found member, ok_bind]
    dsimp only
    rw [accessed.setValueChecked_eq here]
    rfl

/-- Removing a key meets no fault. -/
theorem removeEntryChecked_eq (lists : cache.Lists listing) (key : κ) :
    cache.removeEntryChecked key = .ok (cache.removeEntry key) := by
  rw [removeEntryChecked, removeEntry]
  cases found : cache.index[key]? with
  | none => rfl
  | some slot =>
    obtain ⟨entry, member, _⟩ := lists.exists_entry found
    dsimp only
    rw [lists.store.removeChecked_eq member, lists.store.remove_eq member]
    rfl

variable [LawfulHashable κ]

/-- The key of a listed entry is in the index. -/
theorem containsKey_of_mem (lists : cache.Lists listing) (member : (slot, entry) ∈ listing) :
    cache.containsKey entry.key = true := by
  rw [containsKey_eq_isSome,
    lists.index.find_eq (Listing.mem_keys.mpr ⟨entry, member, rfl⟩) BEq.rfl, Option.isSome_some]

/-- Taking out the first entry meets no fault. -/
theorem takeFirstChecked_eq (lists : cache.Lists listing) :
    cache.takeFirstChecked = .ok cache.takeFirst := by
  rw [takeFirstChecked, lists.store.popFirstChecked_eq, takeFirst, ok_bind]
  cases listing with
  | nil =>
    rw [lists.store.popFirst_nil]
    exact check_bind lists.isEmpty_index _
  | cons cell rest =>
    have member : cell ∈ cell :: rest := List.mem_cons_self
    rw [lists.store.popFirst_cons, lists.store.remove_eq member]
    exact check_bind (lists.containsKey_of_mem member) _

/-- A full cache finds an entry to evict. -/
theorem makeRoomChecked_eq (lists : cache.Lists listing) :
    cache.makeRoomChecked = .ok cache.makeRoom := by
  rw [makeRoomChecked]
  split
  · next full =>
    obtain ⟨slot, entry, _, _, room⟩ := lists.makeRoom_of_full full
    rw [lists.takeFirstChecked_eq, ok_bind]
    rw [makeRoom, if_pos full] at room ⊢
    cases taken : cache.takeFirst with
    | mk first rest =>
      cases first with
      | none => rw [taken] at room; cases room
      | some first => rfl
  · next room =>
    rw [makeRoom, if_neg room]
    rfl

/-- An entry can be added under an absent key. -/
theorem addEntryChecked_eq (lists : cache.Lists listing) {key : κ}
    (absent : cache.index[key]? = none) (value : ν) :
    cache.addEntryChecked key value = .ok (cache.addEntry key value) := by
  have missing : cache.containsKey key = false := by
    rw [containsKey_eq_isSome, absent, Option.isSome_none]
  rw [addEntryChecked, check_bind missing, lists.store.addChecked_eq]
  rfl

/-- Removing the first entry on request meets no fault. -/
theorem popChecked_eq (lists : cache.Lists listing) : cache.popChecked = .ok cache.pop := by
  rw [popChecked, lists.takeFirstChecked_eq, pop, ok_bind]
  cases taken : cache.takeFirst with
  | mk first rest => cases first <;> rfl

end Lists

namespace Represents

variable [EquivBEq κ] [LawfulHashable κ] {cache : Cache policy κ ν} {queue : Queue policy κ ν}

/-- Storing a value meets no fault: after making room the key is still absent. -/
theorem insertChecked_eq (represents : cache.Represents queue) (key : κ) (value : ν) :
    cache.insertChecked key value = .ok (cache.insert key value) := by
  obtain ⟨listing, lists⟩ := represents.listed
  rw [insertChecked, Cache.insert]
  cases found : cache.index[key]? with
  | none =>
    have missing : queue.find? key = none := by
      rw [← represents.queue_eq]
      exact lists.find?_eq_none found
    have absent : cache.makeRoom.state.index[key]? = none :=
      represents.makeRoom.state.getElem?_eq_none (Queue.find?_makeRoom missing)
    obtain ⟨others, roomy⟩ := represents.makeRoom.state.listed
    dsimp only
    rw [lists.makeRoomChecked_eq, ok_bind]
    refine Outcome.andThenChecked_eq ?_
    rw [roomy.addEntryChecked_eq absent]
    rfl
  | some slot =>
    obtain ⟨entry, member, _⟩ := lists.exists_entry found
    exact lists.replaceChecked_eq member key value

/-- Storing a value and asking for the one replaced meets no fault. -/
theorem putChecked_eq (represents : cache.Represents queue) (key : κ) (value : ν) :
    cache.putChecked key value = .ok (cache.put key value) := by
  rw [putChecked, represents.insertChecked_eq]
  rfl

/-- Storing several pairs meets no fault. -/
theorem extendChecked_eq (represents : cache.Represents queue) (pairs : List (κ × ν)) :
    cache.extendChecked pairs = .ok (cache.extend pairs) := by
  induction pairs generalizing cache queue with
  | nil => rfl
  | cons pair rest ih =>
    have stored := (represents.insert pair.1 pair.2).state
    rw [extendChecked, represents.putChecked_eq, Cache.extend, ok_bind]
    exact Outcome.andThenChecked_eq (ih stored)

variable [BEq ν]

/-- No call meets a fault. -/
theorem performChecked_eq (represents : cache.Represents queue) (call : Call κ ν ε ρ) :
    cache.performChecked call = .ok (cache.perform call) := by
  obtain ⟨listing, lists⟩ := represents.listed
  cases call with
  | get key | getWith key result =>
    rw [performChecked, lists.getChecked_eq]
    rfl
  | getMut key write | getMutWith key closure =>
    rw [performChecked, lists.visitChecked_eq]
    rfl
  | peek key =>
    rw [performChecked, peekChecked, lists.entryChecked_eq]
    rfl
  | frequency key =>
    rw [performChecked, frequencyChecked, lists.entryChecked_eq]
    rfl
  | put key value =>
    rw [performChecked, represents.putChecked_eq]
    rfl
  | push key value =>
    rw [performChecked, pushChecked, represents.insertChecked_eq]
    rfl
  | extend pairs =>
    rw [performChecked, represents.extendChecked_eq]
    rfl
  | remove key =>
    rw [performChecked, removeChecked, lists.removeEntryChecked_eq]
    rfl
  | pop =>
    rw [performChecked, lists.popChecked_eq]
    rfl
  | containsValue value =>
    rw [performChecked, containsValueChecked, lists.toListChecked_eq]
    rfl
  | candidate =>
    rw [performChecked, lists.candidateChecked_eq]
    rfl
  | toList =>
    rw [performChecked, lists.toListChecked_eq]
    rfl
  | clear | containsKey | isEmpty | size | capacity => rfl

/-- No call of a run meets a fault, as every call leaves the cache in order for the next. -/
theorem runChecked_eq (represents : cache.Represents queue) (calls : List (Call κ ν ε ρ)) :
    cache.runChecked calls = .ok (cache.run calls) := by
  induction calls generalizing cache queue with
  | nil => rfl
  | cons call rest ih =>
    rw [runChecked, represents.performChecked_eq, Cache.run, ok_bind]
    refine Outcome.andThenChecked_eq ?_
    rw [ih (represents.perform call).state]
    rfl

end Represents

end Cache

end EvictionCache
