import EvictionCache.Proofs.Order
import EvictionCache.Proofs.Plain.Choice

/-!
# Histories of entries

A history pairs each entry of a queue with the slot that a plain cache keeps for it, in the
order of eviction. A queue stores no times; what makes its order the order by times is that
the entry that takes its place now is also the one accessed last, so that comparing what the
entries carry (`Policy.Before`) and comparing times (`PlainSlot.precedes`) come to the same.
-/
namespace EvictionCache

/-- Slots of a plain cache with the entries whose history they keep. -/
abbrev History (policy : Policy) (κ ν : Type) :=
  List (PlainSlot κ ν × Entry κ ν policy.Metadata)

variable {policy : Policy} {κ ν : Type}

/-- A slot keeps the history of an entry. -/
structure PlainSlot.TellsOf (slot : PlainSlot κ ν) (entry : Entry κ ν policy.Metadata) :
    Prop where
  /-- Both have the same key. -/
  key : slot.key = entry.key
  /-- Both have the same value. -/
  value : slot.value = entry.value
  /-- Both count the same accesses. -/
  frequency : slot.frequency? policy = policy.frequency? entry.metadata

/-- A slot has the pair of its entry. -/
theorem PlainSlot.TellsOf.pair_eq {slot : PlainSlot κ ν} {entry : Entry κ ν policy.Metadata}
    (tells : slot.TellsOf entry) : slot.pair = entry.pair :=
  Prod.ext tells.key tells.value

/-- A slot keeps the history of its entry through an access. -/
theorem PlainSlot.TellsOf.accessed {slot : PlainSlot κ ν} {entry : Entry κ ν policy.Metadata}
    (tells : slot.TellsOf entry) (change : ν → ν) (clock : Nat) :
    (slot.accessed change clock).TellsOf
      (⟨entry.key, change slot.value, policy.accessed entry.metadata⟩ :
        Entry κ ν policy.Metadata) where
  key := tells.key
  value := rfl
  frequency := by
    rw [policy.frequency?_accessed, ← tells.frequency]
    cases policy with
    | lru => rfl
    | lfu | lfru => exact congrArg some (nextCount_eq slot.frequency).symm

namespace History

/-- Two entries with different keys that were stored at different times, in the order of their
sequence numbers. -/
structure Apart [BEq κ] (left right : PlainSlot κ ν × Entry κ ν policy.Metadata) : Prop where
  /-- The keys differ. -/
  key : (left.2.key == right.2.key) = false
  /-- The times of storing differ. -/
  storedAt : left.1.storedAt ≠ right.1.storedAt
  /-- The times of storing compare as the sequence numbers do. -/
  sequence : ∀ one ∈ policy.sequence? left.2.metadata,
    ∀ other ∈ policy.sequence? right.2.metadata,
      left.1.storedAt < right.1.storedAt ∧ one < other ∨
        right.1.storedAt < left.1.storedAt ∧ other < one

/-- A history that explains its order, up to a time and to what the next entry will carry. -/
structure Sound [BEq κ] (history : History policy κ ν) (clock : Nat)
    (fresh : policy.Metadata) : Prop where
  /-- Each slot keeps the history of its entry. -/
  tells : ∀ cell ∈ history, cell.1.TellsOf cell.2
  /-- The order of eviction is the order by times. -/
  sorted : history.Pairwise fun first second => first.1.precedes policy second.1 = true
  /-- Entries are told apart by key and by time of storing. -/
  apart : history.Pairwise Apart
  /-- All times have passed. -/
  past : ∀ cell ∈ history, cell.1.storedAt < clock ∧ cell.1.accessedAt < clock
  /-- The next sequence number is greater than all in use. -/
  newer : ∀ cell ∈ history, ∀ one ∈ policy.sequence? cell.2.metadata,
    ∀ next ∈ policy.sequence? fresh, one < next

/-- Being told apart does not depend on the order. -/
theorem Apart.symm [BEq κ] [EquivBEq κ] {left right : PlainSlot κ ν × Entry κ ν policy.Metadata}
    (apart : Apart left right) : Apart right left where
  key := by rw [BEq.comm]; exact apart.key
  storedAt := apart.storedAt.symm
  sequence one here other there := (apart.sequence other there one here).symm

/-- The entry accessed last is compared with another by what the two carry as by their times. -/
theorem precedes_of_last [BEq κ] {new old : PlainSlot κ ν × Entry κ ν policy.Metadata}
    (newTells : new.1.TellsOf new.2) (oldTells : old.1.TellsOf old.2) (apart : Apart new old)
    (last : old.1.accessedAt < new.1.accessedAt) :
    if policy.Before new.2.metadata old.2.metadata then new.1.precedes policy old.1 = true
    else old.1.precedes policy new.1 = true := by
  cases policy with
  | lru =>
    rw [if_neg (id : ¬ Policy.Before .lru _ _), PlainSlot.precedes_iff]
    exact .inr ⟨rfl, last⟩
  | lfu =>
    have newCount : new.1.frequency = new.2.metadata.frequency :=
      Option.some.inj newTells.frequency
    have oldCount : old.1.frequency = old.2.metadata.frequency :=
      Option.some.inj oldTells.frequency
    have stored := apart.sequence _ rfl _ rfl
    simp only [PlainSlot.precedes_iff, PlainSlot.priority, Policy.Before]
    split <;> omega
  | lfru =>
    have newCount : new.1.frequency = new.2.metadata.frequency :=
      Option.some.inj newTells.frequency
    have oldCount : old.1.frequency = old.2.metadata.frequency :=
      Option.some.inj oldTells.frequency
    simp only [PlainSlot.precedes_iff, PlainSlot.priority, Policy.Before]
    split <;> omega

namespace Sound

variable [BEq κ] {history others : History policy κ ν} {clock : Nat} {fresh : policy.Metadata}

/-- A history of nothing is sound. -/
theorem nil (clock : Nat) (fresh : policy.Metadata) :
    Sound ([] : History policy κ ν) clock fresh where
  tells _ member := absurd member List.not_mem_nil
  sorted := .nil
  apart := .nil
  past _ member := absurd member List.not_mem_nil
  newer _ member := absurd member List.not_mem_nil

/-- A history stays sound when entries leave. -/
theorem sublist (sound : history.Sound clock fresh) (kept : others.Sublist history) :
    Sound others clock fresh where
  tells cell member := sound.tells cell (kept.subset member)
  sorted := sound.sorted.sublist kept
  apart := sound.apart.sublist kept
  past cell member := sound.past cell (kept.subset member)
  newer cell member := sound.newer cell (kept.subset member)

/-- What the slots tell is what the entries show. -/
theorem map_eq {γ : Type} (sound : history.Sound clock fresh) {ofSlot : PlainSlot κ ν → γ}
    {ofEntry : Entry κ ν policy.Metadata → γ}
    (same : ∀ slot entry, slot.TellsOf entry → ofSlot slot = ofEntry entry) :
    (history.map Prod.fst).map ofSlot = (history.map Prod.snd).map ofEntry := by
  rw [List.map_map, List.map_map]
  apply List.map_congr_left
  intro cell member
  exact same cell.1 cell.2 (sound.tells cell member)

/-- An entry that takes its place now has its place in time. -/
theorem place [EquivBEq κ] (sound : others.Sound clock fresh)
    {cell : PlainSlot κ ν × Entry κ ν policy.Metadata} (tells : cell.1.TellsOf cell.2)
    (apart : ∀ other ∈ others, Apart cell other) (stored : cell.1.storedAt ≤ clock)
    (now : cell.1.accessedAt = clock) {following : policy.Metadata}
    (newer : ∀ other ∈ cell :: others, ∀ one ∈ policy.sequence? other.2.metadata,
      ∀ next ∈ policy.sequence? following, one < next) :
    Sound (policy.placeCell cell others) (clock + 1) following := by
  have perm := Policy.placeCell_perm cell others
  have compared : ∀ old ∈ others,
      if policy.Before cell.2.metadata old.2.metadata then cell.1.precedes policy old.1 = true
      else old.1.precedes policy cell.1 = true := by
    intro old member
    have before := (sound.past old member).2
    exact precedes_of_last tells (sound.tells old member) (apart old member) (now ▸ before)
  refine ⟨fun other member => ?_, ?_, ?_, fun other member => ?_, fun other member => ?_⟩
  · rcases List.mem_cons.mp (perm.mem_iff.mp member) with rfl | member
    · exact tells
    · exact sound.tells other member
  · apply pairwise_orderedInsert sound.sorted
    · intro old member before
      have earlier := compared old member
      rwa [if_pos before] at earlier
    · intro old member after
      have later := compared old member
      rwa [if_neg after] at later
    -- Whatever follows an entry that comes after the new one comes after it as well.
    · intro old member other _ before next
      have earlier := compared old member
      rw [if_pos before] at earlier
      exact PlainSlot.precedes_trans earlier next
  · exact (perm.pairwise_iff Apart.symm).mpr (List.pairwise_cons.mpr ⟨apart, sound.apart⟩)
  · rcases List.mem_cons.mp (perm.mem_iff.mp member) with rfl | member
    · omega
    · have past := sound.past other member
      omega
  · exact newer other (perm.mem_iff.mp member)

/-- Entries with equal keys are the same. -/
theorem eq_of_key [EquivBEq κ] (sound : history.Sound clock fresh)
    {cell other : PlainSlot κ ν × Entry κ ν policy.Metadata} (member : cell ∈ history)
    (here : other ∈ history) (same : (cell.2.key == other.2.key) = true) : other = cell := by
  have told := List.Pairwise.forall_of_forall_of_flip
    (R := fun one another => another = one ∨ Apart one another) (fun _ _ => .inl rfl)
    (sound.apart.imp .inr) (sound.apart.imp fun apart => .inr apart.symm)
  rcases told member here with equal | apart
  · exact equal
  · rw [apart.key] at same
    cases same

/-- No entry occurs twice. -/
theorem nodup (sound : history.Sound clock fresh) : history.Nodup :=
  sound.apart.imp fun apart same => apart.storedAt (congrArg (fun cell => cell.1.storedAt) same)

/-- An entry can be taken out by its key, which leaves the others. -/
theorem perm_cons_filter [EquivBEq κ] (sound : history.Sound clock fresh)
    {cell : PlainSlot κ ν × Entry κ ν policy.Metadata} (member : cell ∈ history) {key : κ}
    (same : (cell.2.key == key) = true) :
    history.Perm (cell :: history.filter fun other => !(other.2.key == key)) := by
  apply perm_cons_filter_of_unique sound.nodup member same
  intro other here spelt
  exact sound.eq_of_key member here (PartialEquivBEq.trans same (BEq.symm spelt))

end Sound

end History

end EvictionCache
