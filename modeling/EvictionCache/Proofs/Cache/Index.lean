import EvictionCache.Proofs.Listing
import Std.Data.HashMap

/-!
# Indexes of keys

An index leads from a key to the slot whose entry was stored under an equal key, perhaps in
another spelling. `Indexes` ties it to the listing of slots with their stored keys. Each slot
has its own key up to equality, since the index leads from a key to one slot only.
-/
namespace EvictionCache

variable {κ : Type} [BEq κ] [Hashable κ]

/-- An index that finds exactly the slots whose keys equal what is looked up. -/
structure Indexes (index : Std.HashMap κ SlotId) (keys : Listing κ) : Prop where
  /-- What is found is what is listed. -/
  find_iff : ∀ key slot,
    index[key]? = some slot ↔ ∃ stored, (slot, stored) ∈ keys ∧ (stored == key) = true
  /-- There are as many keys as slots. -/
  size_eq : index.size = keys.length

namespace Indexes

variable {index : Std.HashMap κ SlotId} {keys : Listing κ} {slot other : SlotId}
  {key stored : κ}

/-- The order of the listing is free. -/
theorem perm (indexes : Indexes index keys) {others : Listing κ} (same : others.Perm keys) :
    Indexes index others where
  find_iff key slot := by
    rw [indexes.find_iff]
    simp only [same.mem_iff]
  size_eq := by rw [indexes.size_eq, same.length_eq]

/-- A listed key is found. -/
theorem find_eq (indexes : Indexes index keys) (member : (slot, stored) ∈ keys)
    (same : (stored == key) = true) : index[key]? = some slot :=
  (indexes.find_iff key slot).mpr ⟨stored, member, same⟩

/-- A key that is not found equals none that is listed. -/
theorem ne_of_find_eq_none (indexes : Indexes index keys) (absent : index[key]? = none)
    (member : (slot, stored) ∈ keys) : (stored == key) = false := by
  by_contra same
  rw [indexes.find_eq member (Bool.not_eq_false _ ▸ same)] at absent
  cases absent

variable [EquivBEq κ]

/-- Equal keys are in the same slot. -/
theorem slot_eq (indexes : Indexes index keys) (member : (slot, stored) ∈ keys)
    (another : (other, key) ∈ keys) (same : (stored == key) = true) : slot = other := by
  have found := indexes.find_eq member same
  rw [indexes.find_eq another BEq.rfl] at found
  exact (Option.some.inj found).symm

variable [LawfulHashable κ]

/-- An index without keys belongs to the empty listing. -/
theorem nil (vacant : index.isEmpty = true) : Indexes index [] where
  find_iff key slot := by simp [Std.HashMap.getElem?_of_isEmpty vacant]
  size_eq := by
    rw [Std.HashMap.isEmpty_eq_size_eq_zero] at vacant
    exact eq_of_beq vacant

/-- A new key is listed with its slot. -/
theorem insert (indexes : Indexes index keys) (absent : index[key]? = none) (slot : SlotId) :
    Indexes (index.insert key slot) ((slot, key) :: keys) where
  find_iff sought name := by
    rw [Std.HashMap.getElem?_insert]
    by_cases same : (key == sought) = true
    · rw [if_pos same, Option.some_inj]
      constructor
      · intro named
        exact ⟨key, named ▸ List.mem_cons_self, same⟩
      · rintro ⟨stored, member, found⟩
        rcases List.mem_cons.mp member with head | member
        · exact (Prod.mk.inj head).1.symm
        · have apart := indexes.ne_of_find_eq_none absent member
          rw [PartialEquivBEq.trans found (BEq.symm same)] at apart
          cases apart
    · rw [if_neg same, indexes.find_iff]
      constructor
      · rintro ⟨stored, member, found⟩
        exact ⟨stored, List.mem_cons_of_mem _ member, found⟩
      · rintro ⟨stored, member, found⟩
        rcases List.mem_cons.mp member with head | member
        · obtain ⟨rfl, rfl⟩ := Prod.mk.inj head
          exact absurd found same
        · exact ⟨stored, member, found⟩
  size_eq := by
    have outside : key ∉ index := by
      rw [Std.HashMap.mem_iff_isSome_getElem?, absent]
      exact Bool.false_ne_true
    rw [Std.HashMap.size_insert, if_neg outside, indexes.size_eq, List.length_cons]

/-- An erased key is no longer listed, in whatever spelling it was erased. -/
theorem erase (indexes : Indexes index ((slot, stored) :: keys))
    (apart : slot ∉ keys.map Prod.fst) (same : (stored == key) = true) :
    Indexes (index.erase key) keys where
  find_iff sought name := by
    rw [Std.HashMap.getElem?_erase]
    by_cases hit : (key == sought) = true
    · rw [if_pos hit]
      refine iff_of_false (fun found => nomatch found) ?_
      rintro ⟨held, member, found⟩
      have spelt : (stored == held) = true :=
        PartialEquivBEq.trans (PartialEquivBEq.trans same hit) (BEq.symm found)
      have here := indexes.slot_eq List.mem_cons_self (List.mem_cons_of_mem _ member) spelt
      exact apart (List.mem_map.mpr ⟨_, member, here.symm⟩)
    · rw [if_neg hit, indexes.find_iff]
      constructor
      · rintro ⟨held, member, found⟩
        rcases List.mem_cons.mp member with head | member
        · obtain ⟨rfl, rfl⟩ := Prod.mk.inj head
          exact absurd (PartialEquivBEq.trans (BEq.symm same) found) hit
        · exact ⟨held, member, found⟩
      · rintro ⟨held, member, found⟩
        exact ⟨held, List.mem_cons_of_mem _ member, found⟩
  size_eq := by
    have present : key ∈ index :=
      Std.HashMap.isSome_getElem?_iff_mem.mp (by
        rw [indexes.find_eq List.mem_cons_self same, Option.isSome_some])
    have sizes := indexes.size_eq
    rw [List.length_cons] at sizes
    rw [Std.HashMap.size_erase, if_pos present]
    omega

end Indexes

end EvictionCache
