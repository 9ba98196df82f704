import EvictionCache.Proofs.Outcome
import EvictionCache.Proofs.Queue.Basic
import Mathlib.Data.List.Find

/-!
# Queues that look alike

A policy compares entries by their counts and by the order in which they were stored
(`Policy.before_iff`); the sequence numbers themselves decide nothing. Two queues are alike
(`Queue.Alike`) if they hold the same keys with the same values and counts in the same order and
of any two entries the same one was stored first. Alike queues answer every call the same, log
the same and stay alike.
-/
namespace EvictionCache

namespace Policy

variable {policy : Policy} {κ ν : Type}

/-- Whether an entry was stored before another, under the policy that keeps track of it. -/
def Older (policy : Policy) (one other : policy.Metadata) : Prop :=
  ∃ earlier later, policy.sequence? one = some earlier ∧ policy.sequence? other = some later ∧
    earlier < later

/-- No entry was stored before itself. -/
theorem not_older_self (metadata : policy.Metadata) : ¬ policy.Older metadata metadata := by
  rintro ⟨earlier, later, one, other, less⟩
  obtain rfl := Option.some.inj (one.symm.trans other)
  exact Nat.lt_irrefl _ less

/-- An access changes nothing about what was stored before an entry. -/
@[simp] theorem older_accessed_left (one other : policy.Metadata) :
    policy.Older (policy.accessed one) other ↔ policy.Older one other := by
  rw [Older, Older, sequence?_accessed]

/-- An access changes nothing about what an entry was stored before. -/
@[simp] theorem older_accessed_right (one other : policy.Metadata) :
    policy.Older one (policy.accessed other) ↔ policy.Older one other := by
  rw [Older, Older, sequence?_accessed]

/-- An entry is evicted first if it has a smaller count, or the same count and was stored
before. -/
theorem before_iff {new old : policy.Metadata} : policy.Before new old ↔
    (∃ fewer more, policy.frequency? new = some fewer ∧ policy.frequency? old = some more ∧
      fewer < more) ∨
    policy.frequency? new = policy.frequency? old ∧ policy.Older new old := by
  cases policy <;> simp [Before, Older, frequency?, sequence?]

/-- An entry that was stored before the next one. -/
def Given (policy : Policy) (fresh metadata : policy.Metadata) : Prop :=
  ∀ number, policy.sequence? metadata = some number → policy.Older metadata fresh

/-- What the next entry carries is given before the one after it is stored. -/
theorem given_following (fresh : policy.Metadata) :
    policy.Given (policy.following fresh) fresh := by
  intro number known
  exact ⟨number, number + 1, known, by rw [sequence?_following, known]; rfl, Nat.lt_succ_self _⟩

/-- What was stored before the next entry was stored before the one after it. -/
theorem Given.following {fresh metadata : policy.Metadata} (given : policy.Given fresh metadata) :
    policy.Given (policy.following fresh) metadata := by
  intro number known
  obtain ⟨earlier, later, one, other, less⟩ := given number known
  exact ⟨earlier, later + 1, one, by rw [sequence?_following, other]; rfl, Nat.lt_succ_of_lt less⟩

/-- An access changes nothing about an entry being stored before the next. -/
theorem Given.accessed {fresh metadata : policy.Metadata} (given : policy.Given fresh metadata) :
    policy.Given fresh (policy.accessed metadata) := by
  intro number known
  rw [sequence?_accessed] at known
  exact (older_accessed_left _ _).mpr (given number known)

/-- The next entry is stored before none that was stored before it. -/
theorem Given.not_older {fresh metadata : policy.Metadata} (given : policy.Given fresh metadata) :
    ¬ policy.Older fresh metadata := by
  rintro ⟨later, earlier, one, other, less⟩
  obtain ⟨first, second, known, next, order⟩ := given earlier other
  obtain rfl := Option.some.inj (other.symm.trans known)
  obtain rfl := Option.some.inj (one.symm.trans next)
  exact Nat.lt_asymm less order

/-- Whether entries were stored before the next one depends on the policy alone. -/
theorem Given.older_iff {fresh metadata next other : policy.Metadata}
    (given : policy.Given fresh metadata) (also : policy.Given next other) :
    policy.Older metadata fresh ↔ policy.Older other next := by
  cases policy with
  | lru | lfru =>
    refine iff_of_false ?_ ?_ <;> rintro ⟨earlier, later, known, _⟩ <;> cases known
  | lfu => exact iff_of_true (given _ rfl) (also _ rfl)

/-- What can be seen of an entry. -/
def sight (policy : Policy) (entry : Entry κ ν policy.Metadata) : κ × ν × Option Nat :=
  (entry.key, entry.value, policy.frequency? entry.metadata)

/-- Pairs of entries that look the same and were stored in the same order. -/
structure Likens (policy : Policy)
    (cells : List (Entry κ ν policy.Metadata × Entry κ ν policy.Metadata)) : Prop where
  /-- The entries of each pair look the same. -/
  sight : ∀ cell ∈ cells, policy.sight cell.1 = policy.sight cell.2
  /-- Of two pairs the same was stored first on both sides. -/
  older : ∀ cell ∈ cells, ∀ other ∈ cells,
    policy.Older cell.1.metadata other.1.metadata ↔ policy.Older cell.2.metadata other.2.metadata

namespace Likens

variable {cells kept : List (Entry κ ν policy.Metadata × Entry κ ν policy.Metadata)}
  {cell other : Entry κ ν policy.Metadata × Entry κ ν policy.Metadata}

/-- Some of the pairs are as alike as all. -/
theorem subset (likens : policy.Likens cells) (among : kept ⊆ cells) : policy.Likens kept where
  sight cell member := likens.sight cell (among member)
  older cell member other also := likens.older cell (among member) other (among also)

/-- The keys of a pair are the same. -/
theorem key_eq (likens : policy.Likens cells) (member : cell ∈ cells) :
    cell.1.key = cell.2.key := congrArg Prod.fst (likens.sight cell member)

/-- The values of a pair are the same. -/
theorem value_eq (likens : policy.Likens cells) (member : cell ∈ cells) :
    cell.1.value = cell.2.value := congrArg (fun sight => sight.2.1) (likens.sight cell member)

/-- The counts of a pair are the same. -/
theorem frequency?_eq (likens : policy.Likens cells) (member : cell ∈ cells) :
    policy.frequency? cell.1.metadata = policy.frequency? cell.2.metadata :=
  congrArg (fun sight => sight.2.2) (likens.sight cell member)

/-- The same of two pairs is evicted first on both sides. -/
theorem before_iff (likens : policy.Likens cells) (member : cell ∈ cells) (also : other ∈ cells) :
    policy.Before cell.1.metadata other.1.metadata ↔
      policy.Before cell.2.metadata other.2.metadata := by
  rw [Policy.before_iff, Policy.before_iff, likens.frequency?_eq member,
    likens.frequency?_eq also, likens.older cell member other also]

/-- Another pair that looks the same may be added, if the same was stored first on both sides of
it and of every other pair. -/
theorem cons (likens : policy.Likens cells) (sight : policy.sight cell.1 = policy.sight cell.2)
    (older : ∀ other ∈ cells, policy.Older cell.1.metadata other.1.metadata ↔
      policy.Older cell.2.metadata other.2.metadata)
    (younger : ∀ other ∈ cells, policy.Older other.1.metadata cell.1.metadata ↔
      policy.Older other.2.metadata cell.2.metadata) : policy.Likens (cell :: cells) where
  sight := List.forall_mem_cons.mpr ⟨sight, likens.sight⟩
  older one member other also := by
    rcases List.mem_cons.mp member with rfl | held <;>
      rcases List.mem_cons.mp also with rfl | kept
    · exact iff_of_false (not_older_self _) (not_older_self _)
    · exact older other kept
    · exact younger one held
    · exact likens.older one held other kept

/-- A pair takes the same place on both sides. -/
theorem map_fst_placeCell (likens : policy.Likens (cell :: cells)) :
    (policy.placeCell cell cells).map Prod.fst = policy.place cell.1 (cells.map Prod.fst) := by
  apply List.map_orderedInsert
  · intro other member
    exact (likens.before_iff (List.mem_cons_of_mem _ member) List.mem_cons_self).symm
  · intro other member
    exact (likens.before_iff List.mem_cons_self (List.mem_cons_of_mem _ member)).symm

end Likens

end Policy

namespace Queue

variable {policy : Policy} {κ ν ε ρ : Type}

/-- Queues whose entries look the same one by one. -/
structure Likens (left right : Queue policy κ ν)
    (cells : List (Entry κ ν policy.Metadata × Entry κ ν policy.Metadata)) : Prop where
  /-- The same number of entries fits. -/
  capacity : left.capacity = right.capacity
  /-- The pairs hold the entries of one queue. -/
  left_eq : left.entries = cells.map Prod.fst
  /-- They hold the entries of the other. -/
  right_eq : right.entries = cells.map Prod.snd
  /-- The entries of each pair look the same, and of two pairs the same was stored first. -/
  likens : policy.Likens cells
  /-- The next entries will have the same count. -/
  fresh : policy.frequency? left.fresh = policy.frequency? right.fresh
  /-- All entries were stored before the next ones. -/
  given : ∀ cell ∈ cells, policy.Given left.fresh cell.1.metadata ∧
    policy.Given right.fresh cell.2.metadata

/-- Queues that look the same. -/
def Alike (left right : Queue policy κ ν) : Prop := ∃ cells, left.Likens right cells

namespace Likens

variable {left right : Queue policy κ ν}
  {cells kept : List (Entry κ ν policy.Metadata × Entry κ ν policy.Metadata)}
  {cell : Entry κ ν policy.Metadata × Entry κ ν policy.Metadata}

/-- Both queues keep some of their entries. -/
theorem keep (likens : left.Likens right cells) (among : kept ⊆ cells)
    {one other : List (Entry κ ν policy.Metadata)} (first : one = kept.map Prod.fst)
    (second : other = kept.map Prod.snd) :
    Likens { left with entries := one } { right with entries := other } kept :=
  ⟨likens.capacity, first, second, likens.likens.subset among, likens.fresh,
    fun cell member => likens.given cell (among member)⟩

/-- Both queues let go of their first entries. -/
theorem dropFirst (likens : left.Likens right cells) :
    left.dropFirst.Likens right.dropFirst cells.tail :=
  likens.keep (List.tail_sublist cells).subset (by rw [likens.left_eq, List.map_tail])
    (by rw [likens.right_eq, List.map_tail])

/-- A pair takes its place in both queues. -/
theorem place (likens : left.Likens right cells) (alike : policy.Likens (cell :: cells))
    {fresh next : policy.Metadata} (same : policy.frequency? fresh = policy.frequency? next)
    (given : ∀ other ∈ cell :: cells, policy.Given fresh other.1.metadata ∧
      policy.Given next other.2.metadata) :
    Likens ⟨left.capacity, policy.place cell.1 left.entries, fresh⟩
      ⟨right.capacity, policy.place cell.2 right.entries, next⟩ (policy.placeCell cell cells) where
  capacity := likens.capacity
  left_eq := by rw [likens.left_eq, alike.map_fst_placeCell]
  right_eq := by rw [likens.right_eq, Policy.map_snd_placeCell]
  likens := alike.subset (Policy.placeCell_perm cell cells).subset
  fresh := same
  given other member := given other ((Policy.placeCell_perm cell cells).subset member)

/-- A new entry joins both queues. -/
theorem join (likens : left.Likens right cells) (key : κ) (value : ν) :
    (left.join key value).Alike (right.join key value) := by
  have sight : (key, value, policy.frequency? left.fresh) =
      (key, value, policy.frequency? right.fresh) := by rw [likens.fresh]
  have joined : policy.Likens ((⟨key, value, left.fresh⟩, ⟨key, value, right.fresh⟩) :: cells) := by
    refine likens.likens.cons ?_ ?_ ?_
    · exact sight
    · intro other member
      obtain ⟨one, two⟩ := likens.given other member
      exact iff_of_false one.not_older two.not_older
    · intro other member
      obtain ⟨one, two⟩ := likens.given other member
      exact one.older_iff two
  have same : policy.frequency? (policy.following left.fresh) =
      policy.frequency? (policy.following right.fresh) := by
    cases policy <;> rfl
  refine ⟨_, likens.place joined same ?_⟩
  refine List.forall_mem_cons.mpr ⟨⟨Policy.given_following _, Policy.given_following _⟩, ?_⟩
  intro other member
  obtain ⟨one, two⟩ := likens.given other member
  exact ⟨one.following, two.following⟩

variable [BEq κ]

/-- Both queues find the entries of one pair under a key, or nothing. -/
theorem find?_cases (likens : left.Likens right cells) (key : κ) :
    (left.find? key = none ∧ right.find? key = none) ∨
      ∃ cell ∈ cells, left.find? key = some cell.1 ∧ right.find? key = some cell.2 := by
  have same : cells.find? (fun cell => cell.2.key == key) =
      cells.find? fun cell => cell.1.key == key := by
    apply List.find?_congr
    intro cell member
    rw [likens.likens.key_eq member]
  have left : left.find? key = (cells.find? fun cell => cell.1.key == key).map Prod.fst := by
    rw [Queue.find?, likens.left_eq, List.find?_map]
    rfl
  have right : right.find? key = (cells.find? fun cell => cell.1.key == key).map Prod.snd := by
    rw [Queue.find?, likens.right_eq, List.find?_map, ← same]
    rfl
  rw [left, right]
  cases found : cells.find? fun cell => cell.1.key == key with
  | none => exact .inl ⟨rfl, rfl⟩
  | some cell => exact .inr ⟨cell, List.mem_of_find?_eq_some found, rfl, rfl⟩

/-- Both queues discard a key. -/
theorem discard (likens : left.Likens right cells) (key : κ) :
    (left.discard key).Likens (right.discard key)
      (cells.filter fun cell => !(cell.1.key == key)) := by
  have same : cells.filter (fun cell => !(cell.1.key == key)) =
      cells.filter fun cell => !(cell.2.key == key) := by
    apply List.filter_congr
    intro cell member
    rw [likens.likens.key_eq member]
  apply likens.keep (List.filter_subset_self _)
  · rw [likens.left_eq, List.filter_map]
    rfl
  · rw [same, likens.right_eq, List.filter_map]
    rfl

/-- Both queues renew the entries of a pair. -/
theorem renew (likens : left.Likens right cells) (member : cell ∈ cells) (value : ν) :
    (left.renew cell.1 value).Alike (right.renew cell.2 value) := by
  have discarded := likens.discard cell.1.key
  have given := likens.given cell member
  have sight : (cell.1.key, value, policy.frequency? (policy.accessed cell.1.metadata)) =
      (cell.2.key, value, policy.frequency? (policy.accessed cell.2.metadata)) := by
    rw [likens.likens.key_eq member, policy.frequency?_accessed, policy.frequency?_accessed,
      likens.likens.frequency?_eq member]
  have renewed : policy.Likens
      ((⟨cell.1.key, value, policy.accessed cell.1.metadata⟩,
        ⟨cell.2.key, value, policy.accessed cell.2.metadata⟩) ::
          cells.filter fun other => !(other.1.key == cell.1.key)) := by
    refine discarded.likens.cons ?_ ?_ ?_
    · exact sight
    · intro other kept
      rw [Policy.older_accessed_left, Policy.older_accessed_left]
      exact likens.likens.older cell member other (List.mem_of_mem_filter kept)
    · intro other kept
      rw [Policy.older_accessed_right, Policy.older_accessed_right]
      exact likens.likens.older other (List.mem_of_mem_filter kept) cell member
  rw [Queue.renew, Queue.renew, ← likens.likens.key_eq member]
  rw [← likens.likens.key_eq member] at renewed
  refine ⟨_, discarded.place renewed likens.fresh ?_⟩
  exact List.forall_mem_cons.mpr ⟨⟨given.1.accessed, given.2.accessed⟩, discarded.given⟩

end Likens

namespace Alike

variable {left right : Queue policy κ ν}

/-- Both queues hold equally many entries. -/
theorem length_eq (alike : left.Alike right) : left.entries.length = right.entries.length := by
  obtain ⟨cells, likens⟩ := alike
  rw [likens.left_eq, likens.right_eq, List.length_map, List.length_map]

/-- What is read off the sight of the entries is the same. -/
theorem map_eq (alike : left.Alike right) {α : Type} (read : κ × ν × Option Nat → α) :
    (left.entries.map fun entry => read (policy.sight entry)) =
      right.entries.map fun entry => read (policy.sight entry) := by
  obtain ⟨cells, likens⟩ := alike
  rw [likens.left_eq, likens.right_eq, List.map_map, List.map_map]
  apply List.map_congr_left
  intro cell member
  exact congrArg read (likens.likens.sight cell member)

/-- What is read off the sight of the first entry is the same. -/
theorem head_eq (alike : left.Alike right) {α : Type} (read : κ × ν × Option Nat → α) :
    (left.entries.head?.map fun entry => read (policy.sight entry)) =
      right.entries.head?.map fun entry => read (policy.sight entry) := by
  rw [← List.head?_map, ← List.head?_map]
  exact congrArg List.head? (alike.map_eq read)

/-- Both queues let go of their first entries. -/
theorem dropFirst (alike : left.Alike right) : left.dropFirst.Alike right.dropFirst := by
  obtain ⟨cells, likens⟩ := alike
  exact ⟨_, likens.dropFirst⟩

variable [BEq κ]

/-- What is read off the sight of the entry under a key is the same. -/
theorem find?_eq (alike : left.Alike right) (key : κ) {α : Type}
    (read : κ × ν × Option Nat → α) :
    ((left.find? key).map fun entry => read (policy.sight entry)) =
      (right.find? key).map fun entry => read (policy.sight entry) := by
  obtain ⟨cells, likens⟩ := alike
  rcases likens.find?_cases key with ⟨absent, also⟩ | ⟨cell, member, one, other⟩
  · rw [absent, also]
  · rw [one, other]
    exact congrArg (fun sight => some (read sight)) (likens.likens.sight cell member)

/-- Working on the value of a key does the same to both. -/
theorem visit (alike : left.Alike right) (key : κ) (action : ν → ν × ρ) :
    Outcome.Matches Alike (left.visit key action) (right.visit key action) := by
  obtain ⟨cells, likens⟩ := alike
  rw [Queue.visit, Queue.visit]
  rcases likens.find?_cases key with ⟨absent, also⟩ | ⟨cell, member, one, other⟩
  · rw [absent, also]
    exact .silent ⟨cells, likens⟩ rfl
  · rw [one, other]
    dsimp only
    rw [likens.likens.value_eq member]
    exact .silent (likens.renew member _) rfl

/-- Storing a value does the same to both. -/
theorem insert (alike : left.Alike right) (key : κ) (value : ν) :
    Outcome.Matches Alike (left.insert key value) (right.insert key value) := by
  obtain ⟨cells, likens⟩ := alike
  have same : Alike left right := ⟨cells, likens⟩
  rw [Queue.insert, Queue.insert]
  rcases likens.find?_cases key with ⟨absent, also⟩ | ⟨cell, member, one, other⟩
  · rw [absent, also]
    dsimp only
    rw [makeRoom, makeRoom, likens.capacity, same.length_eq]
    by_cases full : right.capacity ≤ right.entries.length
    · have evicted := same.head_eq fun sight => Displaced.evicted sight.1 sight.2.1
      rw [if_pos full, if_pos full]
      exact ⟨evicted, likens.dropFirst.join key value, rfl⟩
    · rw [if_neg full, if_neg full]
      exact ⟨rfl, likens.join key value, rfl⟩
  · rw [one, other]
    dsimp only
    rw [likens.likens.value_eq member]
    exact .silent (likens.renew member value) rfl

/-- Storing several pairs does the same to both. -/
theorem extend (alike : left.Alike right) (pairs : List (κ × ν)) :
    Outcome.Matches Alike (left.extend pairs) (right.extend pairs) := by
  induction pairs generalizing left right with
  | nil => exact .silent alike rfl
  | cons pair rest ih =>
    exact ((alike.insert pair.1 pair.2).map _).andThen fun after alike => ih alike

/-- Removing a key does the same to both. -/
theorem removeEntry (alike : left.Alike right) (key : κ) :
    Outcome.Matches Alike (left.removeEntry key) (right.removeEntry key) := by
  refine .silent ?_ (alike.find?_eq key fun sight => (sight.1, sight.2.1))
  obtain ⟨cells, likens⟩ := alike
  exact ⟨_, likens.discard key⟩

variable [BEq ν]

/-- Every call does the same to both. -/
theorem perform (alike : left.Alike right) (call : Call κ ν ε ρ) :
    Outcome.Matches Alike (left.perform call) (right.perform call) := by
  cases call with
  | get key | getMut key _ => exact (alike.visit key _).map Reply.value
  | getWith key _ | getMutWith key _ => exact (alike.visit key _).map Reply.result
  | peek key =>
    exact .silent alike (congrArg Reply.value (alike.find?_eq key fun sight => sight.2.1))
  | put key value => exact ((alike.insert key value).map _).map Reply.value
  | push key value =>
    exact (alike.insert key value).map fun displaced => Reply.pair (displaced.map Displaced.pair)
  | extend pairs => exact (alike.extend pairs).map fun _ => Reply.done
  | remove key =>
    exact (alike.removeEntry key).map fun pair => Reply.value (pair.map Prod.snd)
  | pop =>
    have popped : Outcome.Matches Alike left.pop right.pop :=
      .silent alike.dropFirst (alike.head_eq fun sight => (sight.1, sight.2.1))
    exact popped.map Reply.pair
  | clear =>
    obtain ⟨cells, likens⟩ := alike
    have same : Alike left right := ⟨cells, likens⟩
    have emptied := likens.keep (List.nil_subset cells) List.map_nil.symm List.map_nil.symm
    have logged := congrArg (fun entries => [Event.clearing policy entries]) same.length_eq
    exact ⟨rfl, ⟨_, emptied⟩, logged⟩
  | frequency key =>
    have counted := congrArg (Option.bind · id) (alike.find?_eq key fun sight => sight.2.2)
    simp only [Option.bind_map] at counted
    exact .silent alike (congrArg Reply.count counted)
  | containsKey key =>
    have found := congrArg Option.isSome (alike.find?_eq key id)
    rw [Option.isSome_map, Option.isSome_map] at found
    exact .silent alike (congrArg Reply.truth found)
  | containsValue value =>
    have values := congrArg (List.any · fun held => held == value)
      (alike.map_eq fun sight => sight.2.1)
    simp only [List.any_map] at values
    exact .silent alike (congrArg Reply.truth values)
  | isEmpty =>
    have empty := congrArg List.isEmpty (alike.map_eq id)
    rw [List.isEmpty_map, List.isEmpty_map] at empty
    exact .silent alike (congrArg Reply.truth empty)
  | size => exact .silent alike (congrArg Reply.number alike.length_eq)
  | capacity =>
    obtain ⟨cells, likens⟩ := alike
    exact .silent ⟨cells, likens⟩ (congrArg Reply.number likens.capacity)
  | candidate =>
    exact .silent alike (congrArg Reply.pair (alike.head_eq fun sight => (sight.1, sight.2.1)))
  | toList =>
    exact .silent alike (congrArg Reply.pairs (alike.map_eq fun sight => (sight.1, sight.2.1)))

/-- Every run does the same to both. -/
theorem run (alike : left.Alike right) (calls : List (Call κ ν ε ρ)) :
    Outcome.Matches Alike (left.run calls) (right.run calls) := by
  induction calls generalizing left right with
  | nil => exact .silent alike rfl
  | cons call rest ih => exact (alike.perform call).andThen fun after alike => (ih alike).map _

end Alike

end Queue

end EvictionCache
