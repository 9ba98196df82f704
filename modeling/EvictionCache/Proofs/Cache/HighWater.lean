import EvictionCache.Proofs.Cache.Agreement
import EvictionCache.Proofs.Cache.Books
import EvictionCache.Proofs.Store.Footprint
import Mathlib

/-!
# Slots never outgrow the entries

A cache has exactly as many slots as entries were ever present at one time since the last clear,
or from the start on (`Turn.HighWater`). A call that does one thing takes a slot, gives one up, or
both: then it evicts, and the new entry gets the slot of the entry that left. What any number of
evictions needs is therefore the slots that are there.
-/
namespace EvictionCache

variable {policy : Policy} {κ ν ε ρ : Type} [BEq κ] [Hashable κ]

/-- Whether a call removes every entry. -/
def Call.clears : Call κ ν ε ρ → Bool
  | .clear => true
  | _ => false

namespace Cache

/-- The slots in which a cache keeps its entries. -/
def footprint (cache : Cache policy κ ν) : Footprint := policy.footprint cache.store

section Changes

variable {cache : Cache policy κ ν} {listing : Listing (Entry κ ν policy.Metadata)}
  {slot : SlotId} {entry : Entry κ ν policy.Metadata}

/-- A new cache has no slots. -/
@[simp] theorem footprint_ofConfig (config : CacheConfig) :
    (ofConfig config : Cache policy κ ν).footprint = .empty := policy.footprint_emptyStore

/-- A slot holds an entry or is free. -/
theorem Lists.slots_eq (lists : cache.Lists listing) :
    cache.footprint.slots = cache.size + cache.footprint.free.length := by
  rw [lists.size_eq]
  exact lists.store.slots_eq

/-- An access takes no slot. -/
@[simp] theorem footprint_access (cache : Cache policy κ ν) (key : κ) :
    (cache.access key).2.footprint = cache.footprint := by
  rw [access]
  cases cache.index[key]? with
  | none => rfl
  | some slot => exact Policy.footprint_touch cache.store slot

/-- Working on a value takes no slot. -/
@[simp] theorem footprint_visit (cache : Cache policy κ ν) (key : κ) (action : ν → ν × ρ) :
    (cache.visit key action).state.footprint = cache.footprint := by
  have accessed := cache.footprint_access key
  rw [visit]
  split
  · next missed => rwa [missed] at accessed
  · next hit =>
    rw [hit] at accessed
    exact (Policy.footprint_setValue ..).trans accessed

/-- Replacing a value takes no slot. -/
@[simp] theorem footprint_replace (cache : Cache policy κ ν) (slot : SlotId) (key : κ)
    (value : ν) : (cache.replace slot key value).state.footprint = cache.footprint := by
  have touched : ((cache.record .recordUpdate).touch slot).footprint = cache.footprint :=
    Policy.footprint_touch cache.store slot
  dsimp only [replace]
  split
  · exact touched
  · exact (Policy.footprint_setValue ..).trans touched

/-- A new entry takes the next slot. -/
theorem footprint_addEntry (cache : Cache policy κ ν) (key : κ) (value : ν) :
    (cache.addEntry key value).footprint = cache.footprint.take :=
  (Policy.footprint_add cache.store key value).2

/-- An entry that is taken out gives its slot up. -/
theorem footprint_discard (held : cache.entryAt? slot = some entry) (key : κ) :
    (cache.discard slot key).footprint = cache.footprint.give slot.index :=
  Policy.footprint_remove held

/-- An entry that is taken out leaves the number of slots. -/
theorem slots_discard (held : cache.entryAt? slot = some entry) (key : κ) :
    (cache.discard slot key).footprint.slots = cache.footprint.slots := by
  rw [footprint_discard held, Footprint.slots_give]

/-- Removing the first entry on request leaves the number of slots. -/
theorem Lists.slots_pop (lists : cache.Lists listing) :
    cache.pop.state.footprint.slots = cache.footprint.slots := by
  rw [pop]
  rcases lists.takeFirst_cases with empty | ⟨slot, entry, _, held, taken⟩
  · rw [empty]
    rfl
  · rw [taken]
    exact slots_discard held entry.key

/-- Clearing leaves neither slots nor entries. -/
theorem footprint_of_clears [BEq ν] (cache : Cache policy κ ν) {call : Call κ ν ε ρ}
    (clears : call.clears = true) :
    (cache.perform call).state.footprint = .empty ∧ (cache.perform call).state.size = 0 := by
  cases call with
  | clear => exact ⟨Policy.footprint_clearStore cache.store, Std.HashMap.size_empty⟩
  | _ => cases clears

variable [EquivBEq κ]

/-- Removing a key leaves the number of slots. -/
theorem Lists.slots_removeEntry (lists : cache.Lists listing) (key : κ) :
    (cache.removeEntry key).state.footprint.slots = cache.footprint.slots := by
  rw [removeEntry]
  cases found : cache.index[key]? with
  | none => rfl
  | some slot =>
    obtain ⟨entry, member, _, _⟩ := lists.exists_entry found
    dsimp only
    rw [lists.store.remove_eq member]
    exact slots_discard (lists.entryAt?_eq member) key

variable [LawfulHashable κ]

/-- The key of a new entry leads to the next slot. -/
theorem index_addEntry (cache : Cache policy κ ν) (key : κ) (value : ν) :
    (cache.addEntry key value).index[key]? = some ⟨cache.footprint.next⟩ := by
  have position := (Policy.footprint_add cache.store key value).1
  refine (Std.HashMap.getElem?_insert_self (m := cache.index)).trans (congrArg some ?_)
  exact SlotId.ext position

/-- Storing a value under an absent key in a full cache evicts the first entry, and the new entry
takes the slot of that. -/
theorem Lists.exists_reused (lists : cache.Lists listing) {key : κ}
    (absent : cache.index[key]? = none) (full : cache.capacity ≤ cache.size) (value : ν) :
    ∃ slot entry, policy.first? cache.store = some slot ∧ cache.entryAt? slot = some entry ∧
      (cache.insert key value).answer = some (.evicted entry.key entry.value) ∧
      (cache.insert key value).state.index[key]? = some slot ∧
      (cache.insert key value).state.footprint = cache.footprint := by
  obtain ⟨slot, entry, first, held, room⟩ := lists.makeRoom_of_full full
  have given : cache.makeRoom.state.footprint = cache.footprint.give slot.index := by
    rw [room]
    exact footprint_discard held entry.key
  have inserted : cache.insert key value =
      cache.makeRoom.andThen fun evicted cache =>
        .silent (evicted.map fun entry => .evicted entry.key entry.value)
          (cache.addEntry key value) := by
    rw [insert, absent]
  refine ⟨slot, entry, first, held, ?_, ?_, ?_⟩
  · rw [inserted, room]
    rfl
  · rw [inserted]
    refine (cache.makeRoom.state.index_addEntry key value).trans ?_
    rw [given, Footprint.next_give]
  · rw [inserted]
    refine (cache.makeRoom.state.footprint_addEntry key value).trans ?_
    rw [given, Footprint.take_give]

/-- Storing a value leaves the number of slots, unless a new entry takes the next one. -/
theorem Lists.footprint_insert (lists : cache.Lists listing) (key : κ) (value : ν) :
    (cache.insert key value).state.footprint.slots = cache.footprint.slots ∨
      (cache.insert key value).state.footprint = cache.footprint.take := by
  cases found : cache.index[key]? with
  | none =>
    by_cases full : cache.capacity ≤ cache.size
    · obtain ⟨_, _, _, _, _, _, same⟩ := lists.exists_reused found full value
      exact .inl (congrArg Footprint.slots same)
    · have room : cache.makeRoom = .silent none cache := if_neg full
      rw [insert, found]
      dsimp only
      rw [room]
      exact .inr (cache.footprint_addEntry key value)
  | some slot =>
    rw [insert, found]
    exact .inl (congrArg Footprint.slots (cache.footprint_replace slot key value))

variable [BEq ν]

/-- A call that does one thing, other than clearing, leaves the number of slots, unless a new entry
takes the next one. -/
theorem Lists.footprint_perform (lists : cache.Lists listing) {call : Call κ ν ε ρ}
    (single : call.Single) (keeps : call.clears = false) :
    (cache.perform call).state.footprint.slots = cache.footprint.slots ∨
      (cache.perform call).state.footprint = cache.footprint.take := by
  cases call with
  | get key | getWith key _ =>
    exact .inl (congrArg Footprint.slots (cache.footprint_access key))
  | getMut key _ | getMutWith key _ =>
    exact .inl (congrArg Footprint.slots (cache.footprint_visit key _))
  | put key value | push key value => exact lists.footprint_insert key value
  | extend => exact absurd single id
  | remove key => exact .inl (lists.slots_removeEntry key)
  | pop => exact .inl lists.slots_pop
  | clear => cases keeps
  | peek | frequency | containsKey | containsValue | isEmpty | size | capacity | candidate
  | toList => exact .inl rfl

/-- A call that does one thing, other than clearing, leaves as many slots as there were, or as there
are entries now if these are more. -/
theorem Represents.slots_perform {queue : Queue policy κ ν} (represents : cache.Represents queue)
    {call : Call κ ν ε ρ} (single : call.Single) (keeps : call.clears = false) :
    (cache.perform call).state.footprint.slots =
      max cache.footprint.slots (cache.perform call).state.size := by
  obtain ⟨listing, lists⟩ := represents.listed
  obtain ⟨later, listsLater⟩ := (represents.perform call).state.listed
  have before := lists.slots_eq
  have after := listsLater.slots_eq
  rcases lists.footprint_perform single keeps with same | taken
  · omega
  · rw [taken] at after ⊢
    exact Footprint.slots_take before after

end Changes

/-- The numbers of entries that were present at one time, before turns and at last, since the last
of the turns that cleared. -/
def sizesSinceClear (cache : Cache policy κ ν) (turns : List (Turn policy κ ν ε ρ)) : List Nat :=
  ((turns.rtakeWhile fun turn => !turn.call.clears).map fun turn => turn.cache.size) ++ [cache.size]

end Cache

/-- The greatest of some numbers and one more. -/
theorem max?_concat {numbers : List Nat} {greatest : Nat} (found : numbers.max? = some greatest)
    (number : Nat) : (numbers ++ [number]).max? = some (max greatest number) := by
  obtain ⟨member, above⟩ := List.max?_eq_some_iff.mp found
  rw [List.max?_eq_some_iff]
  constructor
  · rcases Nat.le_total greatest number with more | less
    · rw [Nat.max_eq_right more]
      exact List.mem_append_right _ (List.mem_singleton_self _)
    · rw [Nat.max_eq_left less]
      exact List.mem_append_left _ member
  · intro other here
    rcases List.mem_append.mp here with here | here
    · exact (above other here).trans (Nat.le_max_left ..)
    · rw [List.mem_singleton.mp here]
      exact Nat.le_max_right ..

namespace Turn

variable [BEq ν]

/-- Whether the new entry of a turn has the slot of the entry that it evicts, and the slots are as
they were. -/
def Reuses (turn : Turn policy κ ν ε ρ) : Prop :=
  ∃ slot entry key, policy.first? turn.cache.store = some slot ∧
    turn.cache.entryAt? slot = some entry ∧
    turn.displaced? = some (.evicted entry.key entry.value) ∧
    turn.call.key? = some key ∧ turn.outcome.state.index[key]? = some slot ∧
    turn.outcome.state.footprint = turn.cache.footprint

/-- A cache that turns led to, with as many slots as entries were present at one time since the
last clear. -/
structure HighWater (turns : List (Turn policy κ ν ε ρ)) (cache : Cache policy κ ν) : Prop where
  /-- There are as many slots as there were ever entries. -/
  peak : (cache.sizesSinceClear turns).max? = some cache.footprint.slots
  /-- There are no more slots than entries fit. -/
  bounded : cache.footprint.slots ≤ cache.capacity
  /-- What was evicted made room for an entry in its own slot. -/
  reuses : ∀ turn ∈ turns, turn.evicts = true → turn.Reuses

/-- A new cache has neither slots nor entries. -/
theorem highWater_nil (config : CacheConfig) :
    HighWater ([] : List (Turn policy κ ν ε ρ)) (Cache.ofConfig config) where
  peak := by
    have unused : (Cache.ofConfig config : Cache policy κ ν).size = 0 :=
      Std.HashMap.size_emptyWithCapacity
    rw [Cache.footprint_ofConfig, Cache.sizesSinceClear, unused]
    rfl
  bounded := by
    rw [Cache.footprint_ofConfig]
    exact Nat.zero_le _
  reuses turn member := nomatch member

variable [EquivBEq κ] [LawfulHashable κ] {cache : Cache policy κ ν} {queue : Queue policy κ ν}
  {call : Call κ ν ε ρ}

/-- An eviction reuses the slot that it frees. -/
theorem reuses_of_evicts (represents : cache.Represents queue)
    (evicts : Turn.evicts ⟨cache, call⟩ = true) : Reuses ⟨cache, call⟩ := by
  obtain ⟨listing, lists⟩ := represents.listed
  cases call with
  | put key value | push key value =>
    obtain ⟨absent, full⟩ := (represents.books_insert key value).2.mp evicts
    rw [Cache.containsKey_eq_isSome, Option.isSome_eq_false_iff, Option.isNone_iff_eq_none]
      at absent
    obtain ⟨slot, entry, first, held, left, found, same⟩ := lists.exists_reused absent full value
    exact ⟨slot, entry, key, first, held, left, rfl, found, same⟩
  | _ => cases evicts

/-- One more call that does one thing leaves as many slots as there were ever entries. -/
theorem HighWater.concat {turns : List (Turn policy κ ν ε ρ)} (highWater : HighWater turns cache)
    (represents : cache.Represents queue) (single : call.Single) :
    HighWater (turns ++ [⟨cache, call⟩]) (cache.perform call).state where
  peak := by
    rw [Cache.sizesSinceClear]
    -- A call that clears begins the list of sizes anew; any other adds one size to it.
    cases clears : call.clears with
    | false =>
      have sizes : (cache.sizesSinceClear turns ++ [(cache.perform call).state.size]).max? = _ :=
        max?_concat highWater.peak _
      rw [List.rtakeWhile_concat_pos _ _ _ (by simp [clears]), List.map_append,
        represents.slots_perform single clears]
      exact sizes
    | true =>
      obtain ⟨vacant, empty⟩ := cache.footprint_of_clears clears
      rw [List.rtakeWhile_concat_neg _ _ _ (by simp [clears]), vacant, empty]
      rfl
  bounded := by
    cases clears : call.clears with
    | false =>
      have before := highWater.bounded
      have after := (represents.perform call).state.size_le
      rw [Cache.capacity_perform] at after ⊢
      rw [represents.slots_perform single clears]
      exact Nat.max_le.mpr ⟨before, after⟩
    | true =>
      rw [(cache.footprint_of_clears clears).1]
      exact Nat.zero_le _
  reuses := by
    intro turn member
    rcases List.mem_append.mp member with member | member
    · exact highWater.reuses turn member
    · rw [List.mem_singleton.mp member]
      exact reuses_of_evicts represents

/-- After every run there are as many slots as there were ever entries. -/
theorem highWater_run (config : CacheConfig) (calls : List (Call κ ν ε ρ)) :
    let start : Cache policy κ ν := .ofConfig config
    HighWater (start.turns (calls.flatMap Call.singly)) (start.run calls).state :=
  Cache.run_induction HighWater config (highWater_nil config) HighWater.concat calls

end Turn

variable [EquivBEq κ] [LawfulHashable κ] [BEq ν]

/-- In every state that a cache can reach under any policy, every slot is occupied by an entry or
free, and there are exactly as many slots as there were entries at one time since the last clear, or
from the start on if there was none; so there are never more slots than entries fit. Whenever an
entry is evicted the new entry is in the slot of the one that left, and the slots are as before.
Pairs that are stored together count as stored one by one. -/
theorem run_slots_eq_peak (policy : Policy) (config : CacheConfig)
    (calls : List (Call κ ν ε ρ)) :
    let start : Cache policy κ ν := Cache.ofConfig config
    let turns := start.turns (calls.flatMap Call.singly)
    let cache := (start.run calls).state
    cache.footprint.slots = cache.size + cache.footprint.free.length ∧
    (cache.sizesSinceClear turns).max? = some cache.footprint.slots ∧
    cache.footprint.slots ≤ config.capacity.entries ∧
    ∀ turn ∈ turns, turn.evicts = true → turn.Reuses := by
  intro start turns cache
  have represents : cache.Represents _ := ((Cache.represents_ofConfig config).run calls).state
  obtain ⟨listing, lists⟩ := represents.listed
  have highWater : Turn.HighWater turns cache := Turn.highWater_run config calls
  have bounded := highWater.bounded
  rw [Cache.capacity_run] at bounded
  exact ⟨lists.slots_eq, highWater.peak, bounded, highWater.reuses⟩

/-- With room for two entries, the third takes the slot of the one that it evicts; after a clear a
single entry has a single slot. -/
theorem run_slots_eq_peak_cleared :
    let start : Cache .lfu Nat Nat := .ofConfig ⟨⟨2, by decide⟩, 16, .threeQuarters⟩
    let full : List (Call Nat Nat Unit Unit) := [.put 1 10, .put 2 20]
    let calls := full ++ [.push 3 30, .clear, .put 4 40]
    let evicting : Turn .lfu Nat Nat Unit Unit := ⟨(start.run full).state, .push 3 30⟩
    evicting ∈ start.turns calls ∧ evicting.evicts = true ∧ evicting.Reuses ∧
      (start.run calls).state.footprint.slots = 1 := by
  intro start full calls evicting
  have represents (calls : List (Call Nat Nat Unit Unit)) : (start.run calls).state.Represents _ :=
    ((Cache.represents_ofConfig _).run calls).state
  obtain ⟨_, peak, _, reuses⟩ := run_slots_eq_peak .lfu ⟨⟨2, by decide⟩, 16, .threeQuarters⟩ calls
  have member : evicting ∈ start.turns calls :=
    List.mem_of_getElem? (rfl : (start.turns calls)[2]? = some evicting)
  have absent : evicting.cache.containsKey 3 = false :=
    ((represents full).containsKey_eq 3).trans (by cbv)
  have crowded : evicting.cache.capacity ≤ evicting.cache.size := by
    rw [(represents full).capacity_eq, (represents full).size_eq]
    cbv
  have evicts : evicting.evicts = true :=
    ((represents full).books_insert 3 30).2.mpr ⟨absent, crowded⟩
  have cleared : (start.run (full ++ [.push 3 30, .clear])).state.size = 0 :=
    (represents _).size_eq.trans (by cbv)
  have single : (start.run calls).state.size = 1 := (represents _).size_eq.trans (by cbv)
  have sizes : (start.run calls).state.sizesSinceClear (start.turns calls) =
      [(start.run (full ++ [.push 3 30, .clear])).state.size, (start.run calls).state.size] := rfl
  rw [cleared, single] at sizes
  have slots : [0, 1].max? = some _ := sizes ▸ peak
  exact ⟨member, evicts, reuses evicting member evicts, (Option.some.inj slots).symm⟩

end EvictionCache
