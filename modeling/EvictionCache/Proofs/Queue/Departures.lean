import EvictionCache.Proofs.Queue.Spelling
import Mathlib

/-!
# What leaves a queue, and with which count

A call parts what a queue holds into what leaves and what stays (`Parts`). The accesses that the
entries have had since they were stored, added up, are kept by all calls: an access adds one,
what leaves takes its own along, and a new entry brings none (`Queue.parts_perform`). Only an
access to an entry whose count has reached its greatest value adds nothing, and is left out.
-/
namespace EvictionCache

variable {κ ν ε ρ : Type}

/-- The accesses to entries after they were stored, added up. -/
def excess (sights : List (κ × ν × Option Nat)) : Nat :=
  ((countsOf sights).map (· - 1)).sum

/-- The order does not matter. -/
theorem excess_perm {sights others : List (κ × ν × Option Nat)} (same : sights.Perm others) :
    excess sights = excess others :=
  ((same.filterMap _).map _).sum_nat

/-- Each entry brings the accesses that it has had. -/
theorem excess_cons {sight : κ × ν × Option Nat} {count : Nat} (counted : sight.2.2 = some count)
    (rest : List (κ × ν × Option Nat)) : excess (sight :: rest) = (count - 1) + excess rest := by
  rw [excess, countsOf_cons counted, List.map_cons, List.sum_cons, ← excess]

/-- Accesses to several entries are added up. -/
theorem excess_append (sights more : List (κ × ν × Option Nat)) :
    excess (sights ++ more) = excess sights + excess more := by
  rw [excess, countsOf, List.filterMap_append, List.map_append, List.sum_append]
  rfl

/-- No entry has had more accesses than all together. -/
theorem le_excess {sights : List (κ × ν × Option Nat)} {sight : κ × ν × Option Nat}
    (member : sight ∈ sights) {count : Nat} (counted : sight.2.2 = some count) :
    count - 1 ≤ excess sights := by
  have listed : count ∈ countsOf sights := List.mem_filterMap.mpr ⟨sight, member, counted⟩
  exact List.le_sum_of_mem (List.mem_map_of_mem listed)

variable [BEq κ]

/-- What was held before is parted into what leaves and what stays. -/
structure Parts (before after leaving staying : List (κ × ν × Option Nat)) : Prop where
  /-- Everything either leaves or stays. -/
  whole : before.Perm (leaving ++ staying)
  /-- The keys of what leaves are absent afterwards. -/
  absent : ∀ sight ∈ leaving, ∀ other ∈ after, (other.1 == sight.1) = false
  /-- The keys of what stays are present afterwards. -/
  present : ∀ sight ∈ staying, ∃ other ∈ after, (other.1 == sight.1) = true

namespace Parts

variable {before after next leaving staying : List (κ × ν × Option Nat)}

/-- What leaves is what is absent afterwards. -/
theorem perm_leaving (parts : Parts before after leaving staying) :
    (before.filter fun sight => !after.any fun other => other.1 == sight.1).Perm leaving := by
  have split := parts.whole.filter fun sight => !after.any fun other => other.1 == sight.1
  have gone : leaving.filter (fun sight => !after.any fun other => other.1 == sight.1) =
      leaving := by
    refine List.filter_eq_self.mpr fun sight member => ?_
    rw [Bool.not_eq_true', List.any_eq_false]
    exact fun other listed => Bool.eq_false_iff.mp (parts.absent sight member other listed)
  have kept : staying.filter (fun sight => !after.any fun other => other.1 == sight.1) = [] := by
    refine List.filter_eq_nil_iff.mpr fun sight member => ?_
    rw [Bool.not_eq_true', Bool.not_eq_false, List.any_eq_true]
    exact parts.present sight member
  rwa [List.filter_append, gone, kept, List.append_nil] at split

/-- In which order things stand afterwards does not matter. -/
theorem perm (parts : Parts before after leaving staying) (same : next.Perm after) :
    Parts before next leaving staying where
  whole := parts.whole
  absent sight member other listed := parts.absent sight member other (same.mem_iff.mp listed)
  present sight member := by
    obtain ⟨other, listed, alike⟩ := parts.present sight member
    exact ⟨other, same.mem_iff.mpr listed, alike⟩

/-- In which order things stood before does not matter either. -/
theorem perm_before (parts : Parts before after leaving staying)
    {others : List (κ × ν × Option Nat)} (same : others.Perm before) :
    Parts others after leaving staying :=
  ⟨same.trans parts.whole, parts.absent, parts.present⟩

/-- Something new may be there afterwards, if its key is not one of those that left. -/
theorem cons (parts : Parts before after leaving staying) {new : κ × ν × Option Nat}
    (differs : ∀ sight ∈ leaving, (new.1 == sight.1) = false) :
    Parts before (new :: after) leaving staying where
  whole := parts.whole
  absent sight member := List.forall_mem_cons.mpr ⟨differs sight member, parts.absent sight member⟩
  present sight member := by
    obtain ⟨other, listed, alike⟩ := parts.present sight member
    exact ⟨other, List.mem_cons_of_mem _ listed, alike⟩

variable [EquivBEq κ]

/-- What stands in front leaves. -/
theorem of_append
    (apart : (leaving ++ staying).Pairwise fun one other => (one.1 == other.1) = false) :
    Parts (leaving ++ staying) staying leaving staying where
  whole := .refl _
  absent sight member other listed := by
    rw [BEq.comm]
    exact (List.pairwise_append.mp apart).2.2 sight member other listed
  present sight member := ⟨sight, member, BEq.rfl⟩

/-- Everything under a key leaves. -/
theorem of_filter (before : List (κ × ν × Option Nat)) (key : κ) :
    Parts before (before.filter fun sight => !(sight.1 == key))
      (before.filter fun sight => sight.1 == key)
      (before.filter fun sight => !(sight.1 == key)) where
  whole := (List.filter_append_perm (fun sight => sight.1 == key) before).symm
  absent sight member other listed := by
    have same : (sight.1 == key) = true := (List.mem_filter.mp member).2
    have differs : (other.1 == key) = false :=
      (Bool.not_eq_true' _).mp (List.mem_filter.mp listed).2
    rwa [BEq.congr_right same]
  present sight member := ⟨sight, member, BEq.rfl⟩

/-- What gets another value or count stays. -/
theorem of_renewed {old new : κ × ν × Option Nat} (same : (new.1 == old.1) = true)
    (rest : List (κ × ν × Option Nat)) : Parts (old :: rest) (new :: rest) [] (old :: rest) where
  whole := .refl _
  absent _ member := nomatch member
  present := List.forall_mem_cons.mpr ⟨⟨new, List.mem_cons_self, same⟩, fun sight member =>
    ⟨sight, List.mem_cons_of_mem _ member, BEq.rfl⟩⟩

end Parts

namespace Queue

variable {policy : Policy} {queue next : Queue policy κ ν}

/-- Between two queues something may have left, some accesses and some insertions may have taken
place, and nothing else. -/
def Parted (queue next : Queue policy κ ν) (accesses insertions : Nat) : Prop :=
  ∃ leaving staying, Parts queue.sights next.sights leaving staying ∧
    excess next.sights = excess staying + accesses ∧
    next.sights.length = staying.length + insertions

variable [EquivBEq κ]

/-- Nothing took place. -/
theorem parted_self (queue : Queue policy κ ν) : queue.Parted queue 0 0 :=
  ⟨[], queue.sights, ⟨.refl _, fun _ member => (nomatch member), fun sight member =>
    ⟨sight, member, BEq.rfl⟩⟩, rfl, rfl⟩

/-- Entries in front left. -/
theorem parted_of_append {leaving : List (κ × ν × Option Nat)}
    (split : leaving ++ next.sights = queue.sights)
    (apart : queue.sights.Pairwise fun one other => (one.1 == other.1) = false) :
    queue.Parted next 0 0 := by
  rw [← split] at apart
  have parts := Parts.of_append apart
  rw [split] at parts
  exact ⟨leaving, next.sights, parts, rfl, rfl⟩

/-- The entry of a key left. -/
theorem parted_discard (queue : Queue policy κ ν) (key : κ) :
    queue.Parted (queue.discard key) 0 0 := by
  have parts := Parts.of_filter queue.sights key
  rw [← queue.sights_discard] at parts
  exact ⟨_, _, parts, rfl, rfl⟩

/-- An entry whose count can go on was accessed. -/
theorem parted_renew (finds : queue.Finds) (nodup : queue.entries.Nodup) {key : κ}
    {entry : Entry κ ν policy.Metadata} (found : queue.find? key = some entry) {count : Nat}
    (counted : policy.frequency? entry.metadata = some count) (positive : 1 ≤ count)
    (below : count < maxAccessCount) (value : ν) :
    queue.Parted (queue.renew entry value) 1 0 := by
  have listed : queue.entries.Perm (entry :: (queue.discard entry.key).entries) := by
    rw [queue.discard_congr (key_of_find?_eq_some found)]
    exact perm_discard finds nodup found
  have whole : queue.sights.Perm (policy.sight entry :: (queue.discard entry.key).sights) :=
    listed.map policy.sight
  have renewed := queue.sights_renew entry value
  have parts : Parts (policy.sight entry :: (queue.discard entry.key).sights)
      ((entry.key, value, (policy.frequency? entry.metadata).map nextCount) ::
        (queue.discard entry.key).sights) [] (policy.sight entry ::
          (queue.discard entry.key).sights) := by
    apply Parts.of_renewed
    exact BEq.rfl
  refine ⟨[], _, (parts.perm renewed).perm_before whole, ?_, renewed.length_eq⟩
  have next : nextCount count = count + 1 := Nat.min_eq_left below
  have before : (policy.sight entry).2.2 = some count := counted
  have after : (policy.frequency? entry.metadata).map nextCount = some (count + 1) := by
    rw [counted, Option.map_some, next]
  rw [excess_perm renewed, excess_cons after, excess_cons before]
  omega

/-- A key that was absent was stored, and an entry left for it if the queue was full. -/
theorem parted_insert {key : κ} (absent : queue.find? key = none)
    (apart : queue.sights.Pairwise fun one other => (one.1 == other.1) = false)
    (fresh : policy.frequency? queue.fresh = some 1) (value : ν) :
    queue.Parted (queue.insert key value).state 0 1 := by
  have inserted : (queue.insert key value).state = queue.makeRoom.state.join key value := by
    rw [insert, absent]
    rfl
  have joined := queue.makeRoom.state.sights_join key value
  have split : queue.makeRoom.answer.toList.map policy.sight ++ queue.makeRoom.state.sights =
      queue.sights := by
    rw [sights, ← List.map_append, queue.makeRoom_append, sights]
  rw [← split] at apart
  have differs : ∀ sight ∈ queue.makeRoom.answer.toList.map policy.sight,
      (key == sight.1) = false := by
    intro sight member
    have before : sight ∈ queue.sights := split ▸ List.mem_append_left _ member
    obtain ⟨entry, listed, rfl⟩ := List.mem_map.mp before
    rw [BEq.comm]
    exact Bool.eq_false_iff.mpr (List.find?_eq_none.mp absent entry listed)
  have parts := ((Parts.of_append apart).cons differs).perm joined
  rw [split] at parts
  have first : policy.frequency? queue.makeRoom.state.fresh = some 1 := by
    rw [queue.fresh_makeRoom, fresh]
  rw [inserted]
  refine ⟨_, _, parts, ?_, joined.length_eq⟩
  rw [excess_perm joined, excess_cons first]
  omega

omit [EquivBEq κ] in
/-- A key is found in a queue if it is one of those that the queue shows. -/
theorem isSome_find?_eq (queue : Queue policy κ ν) (key : κ) :
    (queue.find? key).isSome = queue.sights.any fun sight => sight.1 == key := by
  rw [find?, List.isSome_find?, sights, List.any_map]
  rfl

/-- The entry that a call accesses. -/
def accessed? (queue : Queue policy κ ν) (call : Call κ ν ε ρ) :
    Option (Entry κ ν policy.Metadata) :=
  if call.looksUp || call.stores then call.key?.bind queue.find? else none

omit [EquivBEq κ] in
/-- It is one of the entries. -/
theorem mem_of_accessed? {call : Call κ ν ε ρ} {entry : Entry κ ν policy.Metadata}
    (accessed : queue.accessed? call = some entry) : entry ∈ queue.entries := by
  rw [Queue.accessed?] at accessed
  split at accessed
  · obtain ⟨key, _, found⟩ := Option.bind_eq_some_iff.mp accessed
    exact List.mem_of_find?_eq_some found
  · cases accessed

/-- Whether a call stores a value under an absent key. -/
def inserts (queue : Queue policy κ ν) (call : Call κ ν ε ρ) : Bool :=
  call.stores && !call.key?.any fun key => (queue.find? key).isSome

/-- Between a queue and what a call leaves of it, the call's own access and insertion took place,
if the count of the entry that it accesses can go on. -/
theorem parted_perform [BEq ν] (finds : queue.Finds) (nodup : queue.entries.Nodup)
    (apart : queue.sights.Pairwise fun one other => (one.1 == other.1) = false)
    (fresh : policy.frequency? queue.fresh = some 1) {call : Call κ ν ε ρ} (single : call.Single)
    (counts : ∀ entry, queue.accessed? call = some entry →
      ∃ count, policy.frequency? entry.metadata = some count ∧ 1 ≤ count ∧
        count < maxAccessCount) :
    queue.Parted (queue.perform call).state (queue.accessed? call).isSome.toNat
      (queue.inserts call).toNat := by
  have renewed {key : κ} {entry : Entry κ ν policy.Metadata} (found : queue.find? key = some entry)
      (accessed : queue.accessed? call = some entry) (value : ν) :
      queue.Parted (queue.renew entry value) 1 0 := by
    obtain ⟨count, counted, positive, below⟩ := counts entry accessed
    exact parted_renew finds nodup found counted positive below value
  have visited {α : Type} {key : κ} (action : ν → ν × α)
      (accessed : queue.accessed? call = queue.find? key) :
      queue.Parted (queue.visit key action).state (queue.find? key).isSome.toNat 0 := by
    rw [visit]
    cases found : queue.find? key with
    | none => exact queue.parted_self
    | some entry => exact renewed found (accessed.trans found) _
  have stored {key : κ} (value : ν) (accessed : queue.accessed? call = queue.find? key) :
      queue.Parted (queue.insert key value).state (queue.find? key).isSome.toNat
        (!(queue.find? key).isSome).toNat := by
    cases found : queue.find? key with
    | none => exact parted_insert found apart fresh value
    | some entry =>
      rw [insert, found]
      exact renewed found (accessed.trans found) value
  cases call with
  | get | getMut | getWith | getMutWith => exact visited _ rfl
  | put | push => exact stored _ rfl
  | extend => exact absurd single id
  | remove => exact queue.parted_discard _
  | pop =>
    have split : queue.entries.head?.toList.map policy.sight ++ queue.dropFirst.sights =
        queue.sights := by
      rw [sights, ← List.map_append, queue.dropFirst_append, sights]
    exact parted_of_append split apart
  | clear => exact parted_of_append (List.append_nil _) apart
  | peek | frequency | containsKey | containsValue | isEmpty | size | capacity | candidate
  | toList => exact queue.parted_self

end Queue

end EvictionCache
