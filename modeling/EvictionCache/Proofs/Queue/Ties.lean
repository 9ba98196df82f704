import EvictionCache.Proofs.Queue.Contents
import Mathlib.Data.List.Perm.Basic

/-!
# Ties between counts

Two policies that go by counts first differ only in the order of entries with equal counts. So
queues of both that hold the same let go of the same entry as long as the least count is that of
one entry alone (`SoleLeast`).
-/
namespace EvictionCache

variable {κ ν ε ρ : Type}

/-- Whether the least of some counts occurs among them once. -/
def SoleLeast (counts : List Nat) : Prop :=
  ∃ least, counts.count least = 1 ∧ ∀ count ∈ counts, least ≤ count

/-- Of what stands by increasing counts the first has the least if that occurs once, whatever
the order among equal counts. -/
theorem head?_eq_of_soleLeast {left right : List (κ × ν × Option Nat)} (same : left.Perm right)
    (counted : ∀ sight ∈ left, sight.2.2.isSome) (sorted : (countsOf left).Pairwise (· ≤ ·))
    (also : (countsOf right).Pairwise (· ≤ ·)) (sole : SoleLeast (countsOf left)) :
    left.head? = right.head? := by
  have counts : countsOf left = countsOf right :=
    (same.filterMap _).eq_of_pairwise (fun _ _ _ _ => Nat.le_antisymm) sorted also
  obtain ⟨least, once, least_le⟩ := sole
  cases left with
  | nil => rw [List.nil_perm.mp same]
  | cons first rest =>
    cases right with
    | nil => exact absurd same.symm (List.not_perm_nil_cons _ _)
    | cons other more =>
      have present : other ∈ first :: rest := same.mem_iff.mpr List.mem_cons_self
      obtain ⟨low, known⟩ := Option.isSome_iff_exists.mp (counted first List.mem_cons_self)
      obtain ⟨count, found⟩ := Option.isSome_iff_exists.mp (counted other present)
      have begins : countsOf (first :: rest) = low :: countsOf rest :=
        countsOf_cons known rest
      have begun : countsOf (other :: more) = count :: countsOf more :=
        countsOf_cons found more
      -- The first counts are the same, and are the least.
      have equal : low = count := List.head_eq_of_cons_eq (begins ▸ begun ▸ counts)
      have lowest : least = low := by
        refine Nat.le_antisymm (least_le low (begins ▸ List.mem_cons_self)) ?_
        have member : least ∈ countsOf (first :: rest) := List.count_pos_iff.mp (once ▸ Nat.one_pos)
        rw [begins] at member sorted
        rcases List.mem_cons.mp member with rfl | later
        · exact Nat.le_refl _
        · exact List.rel_of_pairwise_cons sorted later
      rcases List.mem_cons.mp present with rfl | later
      · rfl
      · rw [begins, lowest, List.count_cons_self] at once
        have unlisted : low ∉ countsOf rest := List.count_eq_zero.mp (Nat.succ.inj once)
        exact absurd (List.mem_filterMap.mpr ⟨other, later, equal ▸ found⟩) unlisted

/-- Whether a call asks for the order of eviction. -/
def Call.asksOrder : Call κ ν ε ρ → Bool
  | candidate | toList => true
  | _ => false

namespace Queue

/-- The counts of entries that stand in the order of eviction never go down. -/
theorem pairwise_countsOf {policy : Policy} {queue : Queue policy κ ν}
    (ordered : policy.Ordered queue.entries) : (countsOf queue.sights).Pairwise (· ≤ ·) := by
  rw [countsOf, sights, List.filterMap_map]
  refine List.pairwise_filterMap.mpr (ordered.imp fun later count counted other also => ?_)
  by_contra less
  exact later (Policy.before_iff.mpr (.inl ⟨other, count, also, counted, Nat.lt_of_not_le less⟩))

variable {left : Queue .lfu κ ν} {right : Queue .lfru κ ν}

/-- Queues that hold the same have the same number of entries. -/
theorem length_eq_of_sights (same : left.sights.Perm right.sights) :
    left.entries.length = right.entries.length := by
  have lengths := same.length_eq
  rwa [sights, sights, List.length_map, List.length_map] at lengths

/-- Queues that hold the same have the same counts in the order of eviction. -/
theorem countsOf_sights_eq (same : left.sights.Perm right.sights)
    (ordered : Policy.Ordered .lfu left.entries) (also : Policy.Ordered .lfru right.entries) :
    countsOf left.sights = countsOf right.sights :=
  (same.filterMap _).eq_of_pairwise (fun _ _ _ _ => Nat.le_antisymm)
    (pairwise_countsOf ordered) (pairwise_countsOf also)

/-- Queues that hold the same let go of the same entry if its count is the sole least. -/
theorem head?_sight_eq (same : left.sights.Perm right.sights)
    (ordered : Policy.Ordered .lfu left.entries) (also : Policy.Ordered .lfru right.entries)
    (sole : SoleLeast (countsOf left.sights)) :
    left.entries.head?.map (Policy.sight .lfu) = right.entries.head?.map (Policy.sight .lfru) := by
  have counted : ∀ sight ∈ left.sights, sight.2.2.isSome := by
    intro sight member
    obtain ⟨entry, _, rfl⟩ := List.mem_map.mp member
    rfl
  have heads := head?_eq_of_soleLeast same counted (pairwise_countsOf ordered)
    (pairwise_countsOf also) sole
  rwa [sights, sights, List.head?_map, List.head?_map] at heads

/-- Queues that hold the same, and the same in the first place, go on holding the same without
it. -/
theorem sights_dropFirst (same : left.sights.Perm right.sights)
    (heads : left.entries.head?.map (Policy.sight .lfu) =
      right.entries.head?.map (Policy.sight .lfru)) :
    left.dropFirst.sights.Perm right.dropFirst.sights := by
  obtain ⟨_, one, _⟩ := left
  obtain ⟨_, other, _⟩ := right
  cases one with
  | nil =>
    cases other with
    | nil => exact same
    | cons => cases heads
  | cons first rest =>
    cases other with
    | nil => cases heads
    | cons other more =>
      have equal : Policy.sight .lfu first = Policy.sight .lfru other := Option.some.inj heads
      have split : (Policy.sight .lfu first :: rest.map (Policy.sight .lfu)).Perm
          (Policy.sight .lfru other :: more.map (Policy.sight .lfru)) := same
      rw [equal] at split
      exact split.cons_inv

/-- A queue shows all of what it holds if another holds the same. -/
theorem shows_iff : left.Shows (fun _ => true) right ↔ left.sights.Perm right.sights := by
  rw [Shows, List.filter_true]

/-- Queues of one capacity that hold the same make room by the same entry, if the first is the
same. -/
theorem sights_makeRoom (same : left.sights.Perm right.sights)
    (capacity : left.capacity = right.capacity)
    (heads : left.capacity ≤ left.entries.length →
      left.entries.head?.map (Policy.sight .lfu) =
        right.entries.head?.map (Policy.sight .lfru)) :
    left.makeRoom.state.sights.Perm right.makeRoom.state.sights ∧
      left.makeRoom.answer.map (Policy.sight .lfu) =
        right.makeRoom.answer.map (Policy.sight .lfru) := by
  have lengths := length_eq_of_sights same
  unfold makeRoom
  rw [← capacity, ← lengths]
  by_cases full : left.capacity ≤ left.entries.length
  · rw [if_pos full, if_pos full]
    exact ⟨sights_dropFirst same (heads full), heads full⟩
  · rw [if_neg full, if_neg full]
    exact ⟨same, rfl⟩

variable [BEq κ] [BEq ν]

/-- Queues of one capacity that hold the same answer every call the same that does one thing and
does not ask for the order, and go on holding the same, if the first entries look the same
whenever one has to leave. -/
theorem perform_of_heads (same : left.sights.Perm right.sights) (finds : right.Finds)
    (capacity : left.capacity = right.capacity)
    (fresh : Policy.frequency? .lfu left.fresh = Policy.frequency? .lfru right.fresh)
    {call : Call κ ν ε ρ} (single : call.Single)
    (evicting : ∀ key, call.stores = true → call.key? = some key → left.find? key = none →
      left.capacity ≤ left.entries.length → left.entries.head?.map (Policy.sight .lfu) =
        right.entries.head?.map (Policy.sight .lfru))
    (popping : call = .pop → left.entries.head?.map (Policy.sight .lfu) =
      right.entries.head?.map (Policy.sight .lfru)) :
    (call.asksOrder = false → (left.perform call).answer = (right.perform call).answer) ∧
      (left.perform call).state.sights.Perm (right.perform call).state.sights := by
  cases keyed : call.key? with
  | some key =>
    have done := (shows_iff.mpr same).perform (fun _ _ _ => rfl) finds keyed rfl fresh
      fun stores absent => by
        rw [shows_iff]
        exact sights_makeRoom same capacity (evicting key stores keyed absent)
    exact ⟨fun _ => done.1, shows_iff.mp done.2⟩
  | none =>
    have lengths := length_eq_of_sights same
    cases call with
    | get | getMut | getWith | getMutWith | peek | put | push | remove | frequency | containsKey =>
      cases keyed
    | extend => exact single.elim
    | pop =>
      have heads := popping rfl
      have read := congrArg (Option.map fun sight => (sight.1, sight.2.1)) heads
      rw [Option.map_map, Option.map_map] at read
      exact ⟨fun _ => congrArg Reply.pair read, sights_dropFirst same heads⟩
    | clear => exact ⟨fun _ => rfl, .refl _⟩
    | containsValue value =>
      have any : (left.sights.any fun sight => sight.2.1 == value) =
          right.sights.any fun sight => sight.2.1 == value := same.any_eq
      rw [sights, sights, List.any_map, List.any_map] at any
      exact ⟨fun _ => congrArg Reply.truth any, same⟩
    | isEmpty =>
      refine ⟨fun _ => congrArg Reply.truth (Bool.eq_iff_iff.mpr ?_), same⟩
      rw [List.isEmpty_iff_length_eq_zero, List.isEmpty_iff_length_eq_zero, lengths]
    | size => exact ⟨fun _ => congrArg Reply.number lengths, same⟩
    | capacity => exact ⟨fun _ => congrArg Reply.number capacity, same⟩
    | candidate | toList => exact ⟨fun asks => (by cases asks), same⟩

end Queue

end EvictionCache
