import EvictionCache.Proofs.Queue.Departures

/-!
# The counts that accesses reach

After a call that does one thing every count was there before, or is that of a new entry, or was
reached by the access of the call (`Recounts`). So the highest count that an access ever reached is
the highest count that there ever was, as soon as any access was counted (`Tells`). Unlike the sum
of all accesses, this holds also where a count cannot go on.
-/
namespace EvictionCache

variable {policy : Policy} {κ ν ε ρ : Type}

section Counts

variable {before after seen : List Nat} {reached : Option Nat} {highest : Nat}

/-- What may have become of counts: some are gone, one may be that of a new entry, and one may have
been reached by an access. -/
structure Recounts (before after : List Nat) (reached : Option Nat) : Prop where
  /-- Where every count comes from. -/
  origin : ∀ count ∈ after, count ∈ before ∨ count = 1 ∨ reached = some count
  /-- A count that is reached follows one that was there, and is there. -/
  follows : ∀ count, reached = some count → count ∈ after ∧ ∃ last ∈ before, count = nextCount last

/-- If counts are gone and nothing else happened, no count is new. -/
theorem Recounts.of_subset (kept : after ⊆ before) : Recounts before after none where
  origin _ here := .inl (kept here)
  follows _ impossible := nomatch impossible

/-- A figure that tells the highest of all counts, once there was one that an access had reached,
and is zero until then. -/
structure Tells (highest : Nat) (seen : List Nat) : Prop where
  /-- Every entry counts the access that stored it. -/
  positive : ∀ count ∈ seen, 1 ≤ count
  /-- No count was higher, except those of entries that were stored and not accessed again. -/
  bounded : ∀ count ∈ seen, count ≤ max highest 1
  /-- The figure was reached by an access, unless there was none. -/
  reached : highest = 0 ∨ 2 ≤ highest ∧ highest ∈ seen

/-- Where no count was seen there is none to tell. -/
theorem tells_nil : Tells 0 [] := ⟨List.forall_mem_nil _, List.forall_mem_nil _, .inl rfl⟩

/-- If a figure that tells the highest count is raised to what an access reaches, it goes on to tell
the highest count. -/
theorem Tells.append (tells : Tells highest seen) (recounts : Recounts before after reached)
    (known : before ⊆ seen) : Tells (max highest (reached.getD 0)) (seen ++ after) := by
  -- What an access reaches follows a count of at least one, so it is none that storing gives.
  have above : ∀ count, reached = some count → 2 ≤ count := by
    intro count found
    obtain ⟨_, last, there, rfl⟩ := recounts.follows count found
    have positive := tells.positive last (known there)
    have room : 2 ≤ maxAccessCount := by decide
    rw [nextCount]
    omega
  refine ⟨?_, ?_, ?_⟩
  · intro count here
    rcases List.mem_append.mp here with old | new
    · exact tells.positive count old
    · rcases recounts.origin count new with old | rfl | found
      · exact tells.positive count (known old)
      · exact Nat.le_refl 1
      · exact Nat.le_of_succ_le (above count found)
  · intro count here
    have below : count ∈ seen → count ≤ max (max highest (reached.getD 0)) 1 := by
      intro old
      have bounded := tells.bounded count old
      omega
    rcases List.mem_append.mp here with old | new
    · exact below old
    · rcases recounts.origin count new with old | rfl | rfl
      · exact below (known old)
      · exact Nat.le_max_right ..
      · rw [Option.getD_some]
        omega
  · cases reached with
    | none =>
      rw [Option.getD_none, Nat.max_zero]
      exact tells.reached.imp_right fun ⟨least, old⟩ => ⟨least, List.mem_append_left _ old⟩
    | some count =>
      have least := above count rfl
      have new := (recounts.follows count rfl).1
      rw [Option.getD_some]
      refine .inr ⟨by omega, ?_⟩
      rcases Nat.le_total highest count with more | less
      · rw [Nat.max_eq_right more]
        exact List.mem_append_right _ new
      · rw [Nat.max_eq_left less]
        rcases tells.reached with zero | ⟨_, old⟩
        · omega
        · exact List.mem_append_left _ old

/-- A figure that tells the highest count is that count, if it is at least two, and zero
otherwise. -/
theorem Tells.eq_highest (tells : Tells highest seen) :
    highest = if 2 ≤ seen.max?.getD 0 then seen.max?.getD 0 else 0 := by
  rcases tells.reached with rfl | ⟨least, member⟩
  · have small : seen.max?.getD 0 ≤ 1 := by
      cases found : seen.max? with
      | none => exact Nat.zero_le 1
      | some greatest =>
        exact tells.bounded greatest (List.max?_eq_some_iff.mp found).1
    rw [if_neg (by omega)]
  · have greatest : seen.max? = some highest := by
      refine List.max?_eq_some_iff.mpr ⟨member, fun count here => ?_⟩
      have bounded := tells.bounded count here
      omega
    rw [greatest, Option.getD_some, if_pos least]

end Counts

namespace Queue

variable {queue : Queue policy κ ν}

/-- The counts after an entry left are among those before. -/
theorem countsOf_subset {sights others : List (κ × ν × Option Nat)} (kept : others ⊆ sights) :
    countsOf others ⊆ countsOf sights := List.filterMap_subset _ kept

/-- Making room brings nothing in. -/
theorem sights_makeRoom_subset (queue : Queue policy κ ν) :
    queue.makeRoom.state.sights ⊆ queue.sights := by
  have split := congrArg (List.map policy.sight) queue.makeRoom_append
  rw [List.map_append] at split
  rw [sights, sights, ← split]
  exact List.subset_append_right _ _

variable [BEq κ]

/-- An access to an entry reaches the count after its own. -/
theorem recounts_renew {entry : Entry κ ν policy.Metadata} (member : entry ∈ queue.entries)
    (value : ν) :
    Recounts (countsOf queue.sights) (countsOf (queue.renew entry value).sights)
      ((policy.frequency? entry.metadata).map nextCount) where
  origin count here := by
    obtain ⟨sight, listed, counted⟩ := List.mem_filterMap.mp here
    rcases List.mem_cons.mp ((queue.sights_renew entry value).mem_iff.mp listed) with rfl | listed
    · exact .inr (.inr counted)
    · rw [queue.sights_discard] at listed
      exact .inl (List.mem_filterMap.mpr ⟨sight, List.mem_of_mem_filter listed, counted⟩)
  follows count reached := by
    have renewed := (queue.sights_renew entry value).mem_iff.mpr List.mem_cons_self
    have listed : policy.sight entry ∈ queue.sights := List.mem_map_of_mem member
    obtain ⟨last, known, rfl⟩ := Option.map_eq_some_iff.mp reached
    exact ⟨List.mem_filterMap.mpr ⟨_, renewed, reached⟩, last,
      List.mem_filterMap.mpr ⟨_, listed, known⟩, rfl⟩

/-- A new entry counts the access that stores it. -/
theorem recounts_insert {key : κ} (absent : queue.find? key = none)
    (fresh : ∀ count, policy.frequency? queue.fresh = some count → count = 1) (value : ν) :
    Recounts (countsOf queue.sights) (countsOf (queue.insert key value).state.sights) none where
  origin count here := by
    have inserted : (queue.insert key value).state = queue.makeRoom.state.join key value := by
      rw [insert, absent]
      rfl
    rw [inserted] at here
    obtain ⟨sight, listed, counted⟩ := List.mem_filterMap.mp here
    rcases List.mem_cons.mp ((sights_join _ key value).mem_iff.mp listed) with rfl | listed
    · rw [queue.fresh_makeRoom] at counted
      exact .inr (.inl (fresh count counted))
    · exact .inl (List.mem_filterMap.mpr ⟨sight, queue.sights_makeRoom_subset listed, counted⟩)
  follows _ impossible := nomatch impossible

/-- The count that the access of a call reaches. -/
def reached? (queue : Queue policy κ ν) (call : Call κ ν ε ρ) : Option Nat :=
  (queue.accessed? call).bind fun entry => (policy.frequency? entry.metadata).map nextCount

/-- After a call that does one thing every count was there, is that of a new entry or was reached
by the access of the call. -/
theorem recounts_perform [BEq ν]
    (fresh : ∀ count, policy.frequency? queue.fresh = some count → count = 1)
    {call : Call κ ν ε ρ} (single : call.Single) :
    Recounts (countsOf queue.sights) (countsOf (queue.perform call).state.sights)
      (queue.reached? call) := by
  have visited {α : Type} {key : κ} (action : ν → ν × α)
      (accessed : queue.accessed? call = queue.find? key) :
      Recounts (countsOf queue.sights) (countsOf (queue.visit key action).state.sights)
        (queue.reached? call) := by
    rw [visit, reached?, accessed]
    cases found : queue.find? key with
    | none => exact .of_subset (List.Subset.refl _)
    | some entry => exact recounts_renew (List.mem_of_find?_eq_some found) _
  have stored {key : κ} (value : ν) (accessed : queue.accessed? call = queue.find? key) :
      Recounts (countsOf queue.sights) (countsOf (queue.insert key value).state.sights)
        (queue.reached? call) := by
    rw [reached?, accessed]
    cases found : queue.find? key with
    | none => exact recounts_insert found fresh value
    | some entry =>
      rw [insert, found]
      exact recounts_renew (List.mem_of_find?_eq_some found) value
  cases call with
  | get | getMut | getWith | getMutWith => exact visited _ rfl
  | put | push => exact stored _ rfl
  | extend => exact absurd single id
  | remove key =>
    have kept : (queue.discard key).sights ⊆ queue.sights := by
      rw [queue.sights_discard]
      exact List.filter_sublist.subset
    exact .of_subset (countsOf_subset kept)
  | pop => exact .of_subset (countsOf_subset (List.map_subset _ (List.tail_subset _)))
  | clear => exact .of_subset (countsOf_subset (List.nil_subset _))
  | peek | frequency | containsKey | containsValue | isEmpty | size | capacity | candidate
  | toList => exact .of_subset (List.Subset.refl _)

end Queue

end EvictionCache
