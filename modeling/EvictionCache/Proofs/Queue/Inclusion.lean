import EvictionCache.Proofs.Cache.Turns
import EvictionCache.Proofs.Queue.Basic
import Mathlib.Data.List.Forall2

/-!
# Queues within larger queues

A queue that evicts by recency is within another (`Queue.Within`) if its entries are those of a
part of the other in the same order, and the other has fewer entries more than it has more
capacity. The last is what lets a full larger queue let go of an entry: the smaller one is then
full as well. The same call keeps one within the other, though each may find, evict or pop
something else.
-/
namespace EvictionCache

open List (SublistForall₂)

section Sublists

variable {α β : Type} {related : α → β → Prop} {short : List α} {long : List β}

/-- Each member of the shorter list has one that it is related to in the longer. -/
theorem exists_of_sublistForall₂ (within : SublistForall₂ related short long) {one : α}
    (member : one ∈ short) : ∃ other ∈ long, related one other := by
  obtain ⟨part, pairs, sublist⟩ := List.sublistForall₂_iff.mp within
  obtain ⟨place, bound, rfl⟩ := List.getElem_of_mem member
  have fits : place < part.length := pairs.length_eq ▸ bound
  exact ⟨part[place], sublist.subset (List.getElem_mem fits), pairs.get bound fits⟩

/-- The shorter list is no longer than the longer. -/
theorem length_le_of_sublistForall₂ (within : SublistForall₂ related short long) :
    short.length ≤ long.length := by
  obtain ⟨part, pairs, sublist⟩ := List.sublistForall₂_iff.mp within
  exact pairs.length_eq.trans_le sublist.length_le

/-- Both lists may lose their first members. -/
theorem sublistForall₂_tail (within : SublistForall₂ related short long) :
    SublistForall₂ related short.tail long.tail := by
  induction within with
  | nil => exact .nil
  | cons _ rest => exact rest
  | cons_right rest ih =>
    rename_i other short long
    cases long with
    | nil => cases rest; exact .nil
    | cons other long => exact .cons_right ih

/-- The shorter list may lose its first member. -/
theorem sublistForall₂_tail_left (within : SublistForall₂ related short long) :
    SublistForall₂ related short.tail long := by
  cases long with
  | nil => cases within; exact .nil
  | cons other long => exact .cons_right (sublistForall₂_tail within)

/-- The longer list may be continued. -/
theorem sublistForall₂_append_right (within : SublistForall₂ related short long)
    (more : List β) : SublistForall₂ related short (long ++ more) := by
  induction within with
  | nil => exact .nil
  | cons here _ ih => exact .cons here ih
  | cons_right _ ih => exact .cons_right ih

/-- Both lists may be continued by related members. -/
theorem sublistForall₂_concat (within : SublistForall₂ related short long) {one : α} {other : β}
    (last : related one other) :
    SublistForall₂ related (short ++ [one]) (long ++ [other]) := by
  induction within with
  | nil =>
    rename_i long
    induction long with
    | nil => exact .cons last .nil
    | cons _ _ ih => exact .cons_right ih
  | cons here _ ih => exact .cons here ih
  | cons_right _ ih => exact .cons_right ih

/-- What related members have in common may be filtered for, and the longer list loses no fewer
members by it. -/
theorem sublistForall₂_filter (within : SublistForall₂ related short long) {keep : α → Bool}
    {retain : β → Bool} (same : ∀ one other, related one other → keep one = retain other) :
    SublistForall₂ related (short.filter keep) (long.filter retain) ∧
      (long.filter retain).length + short.length ≤ (short.filter keep).length + long.length := by
  induction within with
  | nil => exact ⟨.nil, Nat.add_comm _ _ ▸ Nat.add_le_add_left (List.length_filter_le _ _) _⟩
  | @cons one other short long here _ ih =>
    obtain ⟨rest, lengths⟩ := ih
    rw [List.filter_cons, List.filter_cons, same one other here]
    cases retain other with
    | true =>
      refine ⟨.cons here rest, ?_⟩
      simp only [if_true, List.length_cons]
      omega
    | false =>
      refine ⟨rest, ?_⟩
      simp only [Bool.false_eq_true, if_false, List.length_cons]
      omega
  | @cons_right other short long _ ih =>
    obtain ⟨rest, lengths⟩ := ih
    rw [List.filter_cons]
    cases retain other with
    | true =>
      refine ⟨.cons_right rest, ?_⟩
      simp only [if_true, List.length_cons]
      omega
    | false =>
      refine ⟨rest, ?_⟩
      simp only [Bool.false_eq_true, if_false, List.length_cons]
      omega

end Sublists

variable {κ ν ε ρ : Type} [BEq κ]

/-- Pairs of equal keys, perhaps in other spellings, and the same value. -/
structure SamePair (one other : κ × ν) : Prop where
  /-- The keys are equal. -/
  key : (one.1 == other.1) = true
  /-- The values are the same. -/
  value : one.2 = other.2

namespace Queue

/-- Every entry is found under each spelling of its key. -/
def Finds {policy : Policy} (queue : Queue policy κ ν) : Prop :=
  ∀ entry ∈ queue.entries, ∀ key : κ, (entry.key == key) = true → queue.find? key = some entry

/-- The entry that is found under a key has an equal key. -/
theorem key_of_find?_eq_some {policy : Policy} {queue : Queue policy κ ν} {key : κ}
    {entry : Entry κ ν policy.Metadata} (found : queue.find? key = some entry) :
    (entry.key == key) = true :=
  List.find?_some (p := fun entry : Entry κ ν policy.Metadata => entry.key == key) found

omit [BEq κ] in
/-- An entry takes its place at the end. -/
theorem place_lru (entry : Entry κ ν Unit) (entries : List (Entry κ ν Unit)) :
    Policy.place .lru entry entries = entries ++ [entry] := by
  induction entries with
  | nil => rfl
  | cons first rest ih =>
    rw [Policy.place, List.orderedInsert_cons, if_neg (id : ¬ Policy.Before .lru _ _),
      List.cons_append]
    exact congrArg _ ih

/-- Discarding a key discards all its spellings. -/
theorem discard_congr [EquivBEq κ] {policy : Policy} (queue : Queue policy κ ν) {one other : κ}
    (same : (one == other) = true) : queue.discard one = queue.discard other := by
  have alike : ∀ entry : Entry κ ν policy.Metadata, (entry.key == one) = (entry.key == other) :=
    fun entry => BEq.congr_right same
  unfold discard
  simp only [alike]

/-- A queue and one at least as large, of which it holds a part. -/
structure Within (small large : Queue .lru κ ν) : Prop where
  /-- More fits into the larger queue. -/
  capacity_le : small.capacity ≤ large.capacity
  /-- The entries of the smaller queue are among those of the larger, in the same order. -/
  entries : SublistForall₂ (fun one other => SamePair one.pair other.pair) small.entries
    large.entries
  /-- The larger queue has fewer entries more than capacity more. -/
  spare : large.entries.length + small.capacity ≤ small.entries.length + large.capacity

namespace Within

variable {small large : Queue .lru κ ν} {one other : Entry κ ν Unit}

/-- Both let go of their first entries. -/
theorem dropFirst (within : small.Within large) : small.dropFirst.Within large.dropFirst where
  capacity_le := within.capacity_le
  entries := sublistForall₂_tail within.entries
  spare := by
    have lengths := length_le_of_sublistForall₂ within.entries
    have spare := within.spare
    have order := within.capacity_le
    simp only [Queue.dropFirst, List.length_tail]
    omega

/-- The smaller queue alone makes room, if the larger has an entry less than it might. -/
theorem makeRoom_left (within : small.Within large)
    (spare : large.entries.length + 1 + small.capacity ≤
      small.entries.length + large.capacity) : small.makeRoom.state.Within large := by
  rw [Queue.makeRoom]
  split
  · refine ⟨within.capacity_le, sublistForall₂_tail_left within.entries, ?_⟩
    have order := within.capacity_le
    simp only [Queue.dropFirst, List.length_tail]
    omega
  · exact within

/-- Both make room, each if it has to. -/
theorem makeRoom (within : small.Within large)
    (bounded : small.entries.length ≤ small.capacity) :
    small.makeRoom.state.Within large.makeRoom.state := by
  have spare := within.spare
  by_cases full : large.capacity ≤ large.entries.length
  · -- The larger queue is full only if the smaller is.
    have other : small.capacity ≤ small.entries.length := by omega
    rw [Queue.makeRoom, Queue.makeRoom, if_pos full, if_pos other]
    exact within.dropFirst
  · have still : large.makeRoom.state = large := by rw [Queue.makeRoom, if_neg full]; rfl
    rw [still]
    by_cases other : small.capacity ≤ small.entries.length
    · exact within.makeRoom_left (by omega)
    · rw [Queue.makeRoom, if_neg other]
      exact within

/-- The same pair joins both at the end. -/
theorem concat (within : small.Within large) (last : SamePair one.pair other.pair) :
    Within { small with entries := small.entries ++ [one] }
      { large with entries := large.entries ++ [other] } where
  capacity_le := within.capacity_le
  entries := sublistForall₂_concat within.entries last
  spare := by
    have spare := within.spare
    simp only [List.length_append, List.length_singleton]
    omega

variable [EquivBEq κ]

/-- Both discard a key. -/
theorem discard (within : small.Within large) (key : κ) :
    (small.discard key).Within (large.discard key) := by
  have kept : SublistForall₂ (fun one other => SamePair one.pair other.pair)
      (small.discard key).entries (large.discard key).entries ∧
        (large.discard key).entries.length + small.entries.length ≤
          (small.discard key).entries.length + large.entries.length :=
    sublistForall₂_filter within.entries
      fun one other pair => congrArg _ (BEq.congr_left pair.key)
  refine ⟨within.capacity_le, kept.1, ?_⟩
  have lengths := kept.2
  have spare := within.spare
  change (large.discard key).entries.length + small.capacity ≤
    (small.discard key).entries.length + large.capacity
  omega

/-- What the smaller queue finds the larger finds as well. -/
theorem find?_eq_some (within : small.Within large) (finds : large.Finds) {key : κ}
    (found : small.find? key = some one) :
    ∃ other, large.find? key = some other ∧ SamePair one.pair other.pair := by
  obtain ⟨other, member, pair⟩ :=
    exists_of_sublistForall₂ within.entries (List.mem_of_find?_eq_some found)
  have same : (other.key == key) = true :=
    PartialEquivBEq.trans (BEq.symm pair.key) (key_of_find?_eq_some found)
  exact ⟨other, finds other member key same, pair⟩

/-- Both renew an entry of the same pair. -/
theorem renew (within : small.Within large) (pair : SamePair one.pair other.pair) (value : ν) :
    (small.renew one value).Within (large.renew other value) := by
  have same : large.discard one.key = large.discard other.key := large.discard_congr pair.key
  have discarded := within.discard one.key
  rw [same] at discarded
  rw [Queue.renew, Queue.renew, place_lru, place_lru]
  exact discarded.concat ⟨pair.key, rfl⟩

/-- The larger queue discards a key that it alone holds, and has an entry less for it. -/
theorem discard_right (within : small.Within large) {key : κ} (absent : small.find? key = none)
    (found : large.find? key = some other) :
    small.Within (large.discard other.key) ∧
      (large.discard other.key).entries.length + 1 + small.capacity ≤
        small.entries.length + large.capacity := by
  have same := key_of_find?_eq_some found
  have fewer : (large.discard key).entries.length < large.entries.length := by
    apply List.length_filter_lt_length_iff_exists.mpr
    exact ⟨other, List.mem_of_find?_eq_some found, by simp [same]⟩
  have discarded := within.discard key
  rw [discard_of_find?_eq_none absent, ← large.discard_congr same] at discarded
  rw [← large.discard_congr same] at fewer
  have spare := within.spare
  exact ⟨discarded, by omega⟩

/-- The larger queue renews an entry that it alone holds. -/
theorem renew_right (within : small.Within large) {key : κ} (absent : small.find? key = none)
    (found : large.find? key = some other) (value : ν) :
    small.Within (large.renew other value) := by
  obtain ⟨discarded, spare⟩ := within.discard_right absent found
  rw [Queue.renew, place_lru]
  refine ⟨within.capacity_le, sublistForall₂_append_right discarded.entries _, ?_⟩
  rw [List.length_append, List.length_singleton]
  exact spare

/-- Both work on the value of a key. What the smaller queue finds and answers the larger does. -/
theorem visit (within : small.Within large) (finds : large.Finds) (key : κ)
    (action : ν → ν × ρ) :
    (small.visit key action).state.Within (large.visit key action).state ∧
      ∀ result, (small.visit key action).answer = some result →
        (large.visit key action).answer = some result := by
  rw [Queue.visit, Queue.visit]
  cases hit : small.find? key with
  | some one =>
    obtain ⟨other, found, pair⟩ := within.find?_eq_some finds hit
    have value : one.value = other.value := pair.value
    rw [found]
    dsimp only
    rw [value]
    exact ⟨within.renew pair _, fun result answer => answer⟩
  | none =>
    cases found : large.find? key with
    | some other => exact ⟨within.renew_right hit found _, fun result none => nomatch none⟩
    | none => exact ⟨within, fun result none => nomatch none⟩

/-- Both store a value. -/
theorem insert (within : small.Within large) (finds : large.Finds)
    (bounded : small.entries.length ≤ small.capacity) (key : κ) (value : ν) :
    (small.insert key value).state.Within (large.insert key value).state := by
  rw [Queue.insert, Queue.insert]
  cases hit : small.find? key with
  | some one =>
    obtain ⟨other, found, pair⟩ := within.find?_eq_some finds hit
    rw [found]
    exact within.renew pair value
  | none =>
    cases found : large.find? key with
    | some other =>
      obtain ⟨discarded, spare⟩ := within.discard_right hit found
      have same := key_of_find?_eq_some found
      have roomy := discarded.makeRoom_left spare
      change (Queue.join small.makeRoom.state key value).Within (large.renew other value)
      rw [Queue.join, Queue.renew, place_lru, place_lru]
      exact roomy.concat ⟨BEq.symm same, rfl⟩
    | none =>
      have roomy := within.makeRoom bounded
      change (Queue.join small.makeRoom.state key value).Within
        (Queue.join large.makeRoom.state key value)
      rw [Queue.join, Queue.join, place_lru, place_lru]
      exact roomy.concat ⟨BEq.rfl, rfl⟩

variable [BEq ν]

/-- Every call that does one thing only keeps one queue within the other, and what the smaller
one finds when it looks a key up the larger one finds as well. -/
theorem perform (within : small.Within large) (finds : large.Finds)
    (bounded : small.entries.length ≤ small.capacity) {call : Call κ ν ε ρ}
    (single : call.Single) :
    (small.perform call).state.Within (large.perform call).state ∧
      (call.looksUp = true → (small.perform call).answer.found = true →
        (large.perform call).answer = (small.perform call).answer) := by
  have looked {α : Type} {call : Call κ ν ε ρ} (key : κ) (action : ν → ν × α)
      (reply : Option α → Reply κ ν ε ρ) (hit : ∀ answer, (reply answer).found = answer.isSome) :
      ((small.visit key action).map reply).state.Within ((large.visit key action).map reply).state ∧
        (call.looksUp = true → ((small.visit key action).map reply).answer.found = true →
          ((large.visit key action).map reply).answer =
            ((small.visit key action).map reply).answer) := by
    obtain ⟨state, answer⟩ := within.visit finds key action
    refine ⟨state, fun _ found => ?_⟩
    obtain ⟨result, given⟩ := Option.isSome_iff_exists.mp ((hit _).symm.trans found)
    exact congrArg reply ((answer result given).trans given.symm)
  cases call with
  | get key | getMut key _ | getWith key _ | getMutWith key _ => exact looked key _ _ fun _ => rfl
  | put key value | push key value =>
    exact ⟨within.insert finds bounded key value, fun looksUp => nomatch looksUp⟩
  | extend => exact absurd single id
  | remove key => exact ⟨within.discard key, fun looksUp => nomatch looksUp⟩
  | pop => exact ⟨within.dropFirst, fun looksUp => nomatch looksUp⟩
  | clear =>
    refine ⟨⟨within.capacity_le, .nil, ?_⟩, fun looksUp => nomatch looksUp⟩
    exact Nat.add_le_add_left within.capacity_le 0
  | peek | frequency | containsKey | containsValue | isEmpty | size | capacity | candidate
  | toList => exact ⟨within, fun looksUp => nomatch looksUp⟩

end Within

end Queue

end EvictionCache
