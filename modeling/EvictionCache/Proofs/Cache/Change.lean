import EvictionCache.Proofs.Cache.Refinement
import Mathlib.Logic.Relation

/-!
# Elementary changes

Whatever a call does to a cache, it does by a few elementary changes one after another: a miss
is counted, an entry is accessed, a value is replaced, an entry is stored or taken out, or all
are (`Cache.Change`). Each keeps a cache in order, and entries only ever carry what a new entry
carries, with some accesses counted on top. What every elementary change keeps, every run keeps
(`Cache.Represents.changes_run`).
-/
namespace EvictionCache.Cache

open Relation (ReflTransGen)

variable {policy : Policy} {κ ν ε ρ : Type} [BEq κ] [Hashable κ]

/-- Takes the entry in a slot and its key out of a cache. -/
def discard (cache : Cache policy κ ν) (slot : SlotId) (key : κ) : Cache policy κ ν :=
  recordShape { cache with
    index := cache.index.erase key
    store := (policy.remove cache.store slot).2 }

/-- One elementary change to a cache. -/
inductive Change (cache : Cache policy κ ν) : Cache policy κ ν → Prop where
  /-- An absent key was looked up. -/
  | miss : Change cache (cache.record .recordMiss)
  /-- A present key was looked up. -/
  | hit {slot : SlotId} {entry : Entry κ ν policy.Metadata}
      (held : cache.entryAt? slot = some entry) :
      Change cache ((cache.record .recordHit).touch slot)
  /-- A present key is about to get another value. -/
  | update {slot : SlotId} {entry : Entry κ ν policy.Metadata}
      (held : cache.entryAt? slot = some entry) :
      Change cache ((cache.record .recordUpdate).touch slot)
  /-- An entry got another value. -/
  | write (slot : SlotId) (value : ν) : Change cache (cache.setValue slot value)
  /-- An entry was stored under an absent key. -/
  | store {key : κ} (absent : cache.index[key]? = none) (room : cache.size < cache.capacity)
      (value : ν) : Change cache (cache.addEntry key value)
  /-- The first entry in the order of eviction made room. -/
  | evict {slot : SlotId} {entry : Entry κ ν policy.Metadata}
      (first : policy.first? cache.store = some slot)
      (held : cache.entryAt? slot = some entry) (full : cache.capacity ≤ cache.size) :
      Change cache ((cache.discard slot entry.key).record .recordEviction)
  /-- An entry was removed on request. -/
  | remove {slot : SlotId} {entry : Entry κ ν policy.Metadata} {key : κ}
      (held : cache.entryAt? slot = some entry) (same : (entry.key == key) = true) :
      Change cache ((cache.discard slot key).record .recordRemoval)
  /-- All entries were removed. -/
  | clear : Change cache cache.clear.state

section Lists

variable {cache changed : Cache policy κ ν} {listing : Listing (Entry κ ν policy.Metadata)}
  {slot : SlotId} {entry : Entry κ ν policy.Metadata}

/-- Taking the first entry discards the first of the listing, if there is any. -/
theorem Lists.takeFirst_cases (lists : cache.Lists listing) :
    cache.takeFirst = (none, cache) ∨
      ∃ slot entry, policy.first? cache.store = some slot ∧ cache.entryAt? slot = some entry ∧
        cache.takeFirst = (some entry, cache.discard slot entry.key) := by
  cases listing with
  | nil =>
    left
    rw [Cache.takeFirst, lists.store.popFirst_nil]
  | cons cell rest =>
    obtain ⟨slot, entry⟩ := cell
    right
    refine ⟨slot, entry, lists.store.first?_eq, lists.entryAt?_eq List.mem_cons_self, ?_⟩
    rw [Cache.takeFirst, lists.store.popFirst_cons, lists.store.remove_eq List.mem_cons_self]
    rfl

section Metadata

variable {holds : policy.Metadata → Prop} (all : ∀ cell ∈ listing, holds cell.2.metadata)

include all

/-- After an access a cache is in order again, and what accesses keep holds of all metadata. -/
theorem Lists.exists_touch (lists : cache.Lists listing)
    (accessed : ∀ metadata, holds metadata → holds (policy.accessed metadata))
    (held : cache.entryAt? slot = some entry) (counted : CoreMetrics → CoreMetrics) :
    ∃ renewed, ((cache.record counted).touch slot).Lists renewed ∧
      ∀ cell ∈ renewed, holds cell.2.metadata := by
  have member := lists.mem_iff.mpr held
  have recorded : (cache.record counted).Lists listing := lists.withMetrics _
  refine ⟨_, recorded.touch member, fun cell here => ?_⟩
  rcases List.mem_cons.mp ((Policy.placeCell_perm _ _).mem_iff.mp here) with rfl | here
  · exact accessed _ (all _ member)
  · exact all cell (Listing.mem_without.mp here).1

/-- After a value was replaced a cache is in order again, and all metadata are as before. -/
theorem Lists.exists_setValue (lists : cache.Lists listing) (slot : SlotId) (value : ν) :
    ∃ renewed, (cache.setValue slot value).Lists renewed ∧
      ∀ cell ∈ renewed, holds cell.2.metadata := by
  have stored := lists.store.setValue slot value
  have named := Listing.keys_mapAt listing slot value
  refine ⟨_, lists.replaceStore stored (.of_eq named), ?_⟩
  rintro ⟨other, _⟩ here
  obtain ⟨entry, member, rfl⟩ := Listing.mem_mapAt.mp here
  have carried := all (other, entry) member
  dsimp only
  split <;> exact carried

variable [EquivBEq κ] [LawfulHashable κ]

/-- After an entry was stored a cache is in order again, and what holds of its metadata holds
of all. -/
theorem Lists.exists_addEntry (lists : cache.Lists listing)
    (fresh : holds (policy.fresh cache.store)) {key : κ} (absent : cache.index[key]? = none)
    (room : cache.size < cache.capacity) (value : ν) :
    ∃ renewed, (cache.addEntry key value).Lists renewed ∧
      ∀ cell ∈ renewed, holds cell.2.metadata := by
  obtain ⟨slot, added⟩ := lists.addEntry absent (lists.size_eq ▸ room) value
  refine ⟨_, added, fun cell here => ?_⟩
  rcases List.mem_cons.mp ((Policy.placeCell_perm _ _).mem_iff.mp here) with rfl | here
  · exact fresh
  · exact all cell here

/-- After an entry was taken out a cache is in order again, and the other metadata are as
before. -/
theorem Lists.exists_discard (lists : cache.Lists listing)
    (held : cache.entryAt? slot = some entry) {key : κ} (same : (entry.key == key) = true)
    (counted : CoreMetrics → CoreMetrics) :
    ∃ renewed, ((cache.discard slot key).record counted).Lists renewed ∧
      ∀ cell ∈ renewed, holds cell.2.metadata := by
  have erased := (lists.erase (lists.mem_iff.mpr held) same).withMetrics
    ((cache.discard slot key).record counted).metrics
  exact ⟨_, erased, fun cell here => all cell (Listing.mem_without.mp here).1⟩

/-- After an elementary change a cache is in order again, and what holds of the metadata of new
entries and is kept by accesses still holds of all metadata. -/
theorem Change.exists_lists (change : cache.Change changed) (lists : cache.Lists listing)
    (fresh : ∀ store, holds (policy.fresh (ν := ν) (κ := κ) store))
    (accessed : ∀ metadata, holds metadata → holds (policy.accessed metadata)) :
    ∃ renewed, changed.Lists renewed ∧ ∀ cell ∈ renewed, holds cell.2.metadata := by
  cases change with
  | miss => exact ⟨listing, lists.withMetrics _, all⟩
  | hit held => exact lists.exists_touch all accessed held _
  | update held => exact lists.exists_touch all accessed held _
  | write slot value => exact lists.exists_setValue all slot value
  | store absent room value => exact lists.exists_addEntry all (fresh _) absent room value
  | evict first held full => exact lists.exists_discard all held BEq.rfl _
  | remove held same => exact lists.exists_discard all held same _
  | clear =>
    have cleared := policy.lists_clearStore cache.store
    have emptied : cache.clear.state.Lists [] :=
      ⟨cleared, .nil Std.HashMap.isEmpty_empty, Nat.zero_le _⟩
    exact ⟨[], emptied, fun cell here => nomatch here⟩

end Metadata

end Lists

namespace Represents

variable {cache : Cache policy κ ν} {queue : Queue policy κ ν}

/-- Making room evicts the first entry or changes nothing. -/
theorem changes_makeRoom (represents : cache.Represents queue) :
    ReflTransGen Change cache cache.makeRoom.state := by
  obtain ⟨listing, lists⟩ := represents.listed
  rw [Cache.makeRoom]
  split
  · next full =>
    rcases lists.takeFirst_cases with empty | ⟨slot, entry, first, held, taken⟩
    · rw [empty]
      exact .refl
    · rw [taken]
      exact .single (.evict first held full)
  · exact .refl

variable [EquivBEq κ]

/-- An access counts a miss or a hit. -/
theorem change_access (represents : cache.Represents queue) (key : κ) :
    cache.Change (cache.access key).2 := by
  obtain ⟨listing, lists⟩ := represents.listed
  cases found : cache.index[key]? with
  | none =>
    rw [access_of_none found]
    exact .miss
  | some slot =>
    obtain ⟨entry, member, _, _⟩ := lists.exists_entry found
    rw [lists.access_of_some found member]
    exact .hit (lists.entryAt?_eq member)

/-- Working on a value accesses it and then replaces it. -/
theorem changes_visit (represents : cache.Represents queue) (key : κ) (action : ν → ν × ρ) :
    ReflTransGen Change cache (cache.visit key action).state := by
  have accessed := represents.change_access key
  rw [Cache.visit]
  split
  · next missed =>
    rw [missed] at accessed
    exact .single accessed
  · next hit =>
    rw [hit] at accessed
    exact (ReflTransGen.single accessed).tail (.write _ _)

/-- Removing a key discards its entry. -/
theorem changes_removeEntry (represents : cache.Represents queue) (key : κ) :
    ReflTransGen Change cache (cache.removeEntry key).state := by
  obtain ⟨listing, lists⟩ := represents.listed
  rw [Cache.removeEntry]
  cases found : cache.index[key]? with
  | none => exact .refl
  | some slot =>
    obtain ⟨entry, member, same, _⟩ := lists.exists_entry found
    have removed : cache.Change ((cache.discard slot key).record .recordRemoval) :=
      .remove (lists.entryAt?_eq member) same
    dsimp only
    rw [lists.store.remove_eq member]
    exact .single removed

/-- Removing the first entry on request discards it. -/
theorem changes_pop (represents : cache.Represents queue) :
    ReflTransGen Change cache cache.pop.state := by
  obtain ⟨listing, lists⟩ := represents.listed
  rw [Cache.pop]
  rcases lists.takeFirst_cases with empty | ⟨slot, entry, _, held, taken⟩
  · rw [empty]
    exact .refl
  · rw [taken]
    exact .single (.remove held BEq.rfl)

variable [LawfulHashable κ]

/-- Storing a value replaces one, or makes room and stores an entry. -/
theorem changes_insert (represents : cache.Represents queue) (key : κ) (value : ν) :
    ReflTransGen Change cache (cache.insert key value).state := by
  obtain ⟨listing, lists⟩ := represents.listed
  rw [Cache.insert]
  cases found : cache.index[key]? with
  | none =>
    have roomy := represents.makeRoom.state
    have missing : queue.find? key = none := by
      rw [← represents.queue_eq]
      exact lists.find?_eq_none found
    have absent : cache.makeRoom.state.index[key]? = none :=
      roomy.getElem?_eq_none (Queue.find?_makeRoom missing)
    have room : cache.makeRoom.state.size < cache.makeRoom.state.capacity := by
      rw [roomy.size_eq, roomy.capacity_eq]
      exact Queue.length_makeRoom represents.capacity_pos represents.length_le
    exact represents.changes_makeRoom.tail (.store absent room value)
  | some slot =>
    obtain ⟨entry, member, _, _⟩ := lists.exists_entry found
    have updated : cache.Change ((cache.record .recordUpdate).touch slot) :=
      .update (lists.entryAt?_eq member)
    dsimp only [replace]
    split
    · exact .single updated
    · exact (ReflTransGen.single updated).tail (.write _ _)

/-- Storing several pairs stores them one after another. -/
theorem changes_extend (represents : cache.Represents queue) (pairs : List (κ × ν)) :
    ReflTransGen Change cache (cache.extend pairs).state := by
  induction pairs generalizing cache queue with
  | nil => exact .refl
  | cons pair rest ih =>
    have stored := represents.changes_insert pair.1 pair.2
    exact stored.trans (ih (represents.insert pair.1 pair.2).state)

variable [BEq ν]

/-- Every call makes elementary changes only. -/
theorem changes_perform (represents : cache.Represents queue) (call : Call κ ν ε ρ) :
    ReflTransGen Change cache (cache.perform call).state := by
  cases call with
  | get key | getWith key _ => exact .single (represents.change_access key)
  | getMut key _ | getMutWith key _ => exact represents.changes_visit key _
  | put key value | push key value => exact represents.changes_insert key value
  | extend pairs => exact represents.changes_extend pairs
  | remove key => exact represents.changes_removeEntry key
  | pop => exact represents.changes_pop
  | clear => exact .single .clear
  | peek | frequency | containsKey | containsValue | isEmpty | size | capacity | candidate
  | toList => exact .refl

/-- Every request makes elementary changes only. -/
theorem changes_serve (represents : cache.Represents queue) (request : Request κ ν ε ρ) :
    ReflTransGen Change cache (cache.serve request).state := by
  cases request with
  | call call => exact represents.changes_perform call
  | metrics | report => exact .refl

/-- Every run makes elementary changes only. -/
theorem changes_run (represents : cache.Represents queue) (calls : List (Call κ ν ε ρ)) :
    ReflTransGen Change cache (cache.run calls).state := by
  induction calls generalizing cache queue with
  | nil => exact .refl
  | cons call rest ih =>
    exact (represents.changes_perform call).trans (ih (represents.perform call).state)

end Represents

section Run

variable {cache changed : Cache policy κ ν}

variable [EquivBEq κ] [LawfulHashable κ]

/-- Elementary changes keep a cache in order, and what holds of the metadata of new entries and
is kept by accesses still holds of all metadata. -/
theorem exists_lists_of_changes (changes : ReflTransGen Change cache changed)
    {listing : Listing (Entry κ ν policy.Metadata)} (lists : cache.Lists listing)
    (holds : policy.Metadata → Prop) (all : ∀ cell ∈ listing, holds cell.2.metadata)
    (fresh : ∀ store, holds (policy.fresh (ν := ν) (κ := κ) store))
    (accessed : ∀ metadata, holds metadata → holds (policy.accessed metadata)) :
    ∃ renewed, changed.Lists renewed ∧ ∀ cell ∈ renewed, holds cell.2.metadata := by
  induction changes with
  | refl => exact ⟨listing, lists, all⟩
  | tail _ change ih =>
    obtain ⟨between, inOrder, carried⟩ := ih
    exact change.exists_lists carried inOrder fresh accessed

variable [BEq ν]

/-- A run from the start makes elementary changes only. -/
theorem changes_ofConfig (config : CacheConfig) (calls : List (Call κ ν ε ρ)) :
    ReflTransGen Change (ofConfig config : Cache policy κ ν)
      ((ofConfig config).run calls).state :=
  (represents_ofConfig config).changes_run calls

end Run

end EvictionCache.Cache
