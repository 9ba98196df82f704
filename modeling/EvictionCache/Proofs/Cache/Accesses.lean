import EvictionCache.Proofs.Queue.Ledger
import EvictionCache.Workload.Key
import Mathlib

/-!
# Accesses in any order

Under a policy that breaks ties by insertion an access leaves behind only that it took place,
not when. It adds one to the count of its entry and to the figures, and the place of the entry
follows from its count and its sequence number. So lookups that are made in another order leave
the same counts, values and figures and rank every slot the same (`Cache.Coincides`), and
nothing that is asked later tells the orders apart.
-/
namespace EvictionCache

variable {policy : Policy} {κ ν ε ρ : Type} [BEq κ] [Hashable κ]

namespace Cache

section Ranked

/-- Two caches that break ties by insertion and hold the same in all their parts. The sorted maps
behind their rankings may be built differently, but they rank every slot the same. -/
structure Coincides (left right : Cache .lfu κ ν) : Prop where
  /-- Both were configured the same. -/
  config : left.config = right.config
  /-- The same keys lead to the same slots. -/
  index : left.index = right.index
  /-- The slots hold the same entries, with the same values and ranks. -/
  slots : left.store.slots = right.store.slots
  /-- The same slots have the same ranks. -/
  ranks : left.store.ranking.ranks.Equiv right.store.ranking.ranks
  /-- The next entry gets the same sequence number. -/
  nextSequence : left.store.nextSequence = right.store.nextSequence
  /-- The same was counted. -/
  metrics : left.metrics = right.metrics

/-- The cache with all ranks forgotten. -/
def unranked (cache : Cache .lfu κ ν) : Cache .lfu κ ν :=
  { cache with store := { cache.store with ranking := .empty } }

/-- Counts an access to the entry in a slot and leaves the ranking as it is. -/
def count (cache : Cache .lfu κ ν) (slot : SlotId) : Cache .lfu κ ν :=
  { cache with
    store := { cache.store with
      slots := cache.store.slots.modify slot fun entry =>
        entry.withMetadata entry.metadata.increment }
    metrics := { cache.metrics with
      usage := Policy.mergeUsage .lfu cache.metrics.usage
        (Policy.added .lfu (cache.store.slots.get? slot)) } }

/-- Looks a key up as an access and leaves the ranking as it is. -/
def note (cache : Cache .lfu κ ν) (key : κ) : Cache .lfu κ ν :=
  match cache.index[key]? with
  | none => cache.record .recordMiss
  | some slot => (cache.record .recordHit).count slot

/-- Apart from its rank, an entry that is touched has its access counted. -/
theorem unranked_touch (cache : Cache .lfu κ ν) (slot : SlotId) :
    (cache.touch slot).unranked = cache.unranked.count slot := by
  have slots : (cache.store.touch slot).slots = cache.store.slots.modify slot
      fun entry => entry.withMetadata entry.metadata.increment := by
    rw [RankedStore.touch, RankedStore.entry?]
    cases held : cache.store.slots.get? slot with
    | none =>
      refine (Arena.modify_eq_self fun value found => ?_).symm
      rw [held] at found
      cases found
    | some entry =>
      refine Arena.modify_congr fun value found => ?_
      rw [Option.some.inj (held.symm.trans found)]
  have usage : Policy.recordAccess .lfu cache.metrics.usage (cache.store.touch slot) slot =
      Policy.mergeUsage .lfu cache.metrics.usage
        (Policy.added .lfu (cache.store.slots.get? slot)) := by
    rw [Policy.recordAccess, RankedStore.entry?, slots, Arena.get?_modify, if_pos rfl]
    cases cache.store.slots.get? slot with
    | none => exact (Policy.mergeUsage_fresh _).symm
    | some entry => rfl
  have stored : (cache.store.touch slot).nextSequence = cache.store.nextSequence :=
    RankedStore.nextSequence_touch _ _
  unfold unranked count touch
  simp only [Policy.touch, slots, usage, stored]

/-- Apart from ranks, a lookup only takes note of its key. -/
theorem unranked_access (cache : Cache .lfu κ ν) (key : κ) :
    (cache.access key).2.unranked = cache.unranked.note key := by
  rw [access, note, show cache.unranked.index = cache.index from rfl]
  cases cache.index[key]? with
  | none => rfl
  | some slot => exact (cache.record .recordHit).unranked_touch slot

/-- Two entries have their accesses counted in either order. -/
theorem count_comm (cache : Cache .lfu κ ν) (slot other : SlotId) :
    (cache.count slot).count other = (cache.count other).count slot := by
  by_cases same : slot = other
  · rw [same]
  · have first : (cache.store.slots.modify slot fun entry =>
        entry.withMetadata entry.metadata.increment).get? other = cache.store.slots.get? other := by
      rw [Arena.get?_modify, if_neg (Ne.symm same)]
    have second : (cache.store.slots.modify other fun entry =>
        entry.withMetadata entry.metadata.increment).get? slot = cache.store.slots.get? slot := by
      rw [Arena.get?_modify, if_neg same]
    have usage : ∀ one another : Policy.Usage .lfu,
        Policy.mergeUsage .lfu (Policy.mergeUsage .lfu cache.metrics.usage one) another =
          Policy.mergeUsage .lfu (Policy.mergeUsage .lfu cache.metrics.usage another) one := by
      intro one another
      rw [Policy.mergeUsage_assoc, Policy.mergeUsage_comm one, ← Policy.mergeUsage_assoc]
    have slots := cache.store.slots.modify_comm same
      (fun entry : Entry κ ν Rank => entry.withMetadata entry.metadata.increment)
      fun entry => entry.withMetadata entry.metadata.increment
    unfold count
    simp only [first, second]
    rw [usage, slots]

/-- It makes no difference which of two keys is taken note of first: both may be absent, in one
slot or in two. -/
theorem note_comm (cache : Cache .lfu κ ν) (one other : κ) :
    (cache.note one).note other = (cache.note other).note one := by
  have kept : ∀ key : κ, (cache.note key).index = cache.index := by
    intro key
    rw [note]
    split <;> rfl
  rw [note, kept, note.eq_def (cache.note other), kept, note, note]
  cases cache.index[one]? with
  | none => cases cache.index[other]? <;> rfl
  | some slot =>
    cases cache.index[other]? with
    | none => rfl
    | some place => exact count_comm ((cache.record .recordHit).record .recordHit) slot place

/-- Apart from ranks, lookups only take note of their keys one after another. -/
theorem unranked_run_gets [BEq ν] (cache : Cache .lfu κ ν) (keys : List κ) :
    (cache.run (keys.map (.get : κ → Call κ ν ε ρ))).state.unranked =
      keys.foldl note cache.unranked := by
  induction keys generalizing cache with
  | nil => rfl
  | cons key rest ih =>
    rw [List.foldl_cons, ← cache.unranked_access key]
    exact ih (cache.access key).2

/-- In a cache in order the entries determine the ranking. -/
theorem Lists.coincides {left right : Cache .lfu κ ν}
    {listing others : Listing (Entry κ ν Rank)} (lists : left.Lists listing)
    (also : right.Lists others) (same : left.unranked = right.unranked) :
    left.Coincides right := by
  have slots : left.store.slots = right.store.slots :=
    congrArg (fun cache => cache.store.slots) same
  have one : RankedStore.Lists left.store listing := lists.store
  have other : RankedStore.Lists right.store others := also.store
  have held (slot : SlotId) (entry : Entry κ ν Rank) :
      (slot, entry) ∈ listing ↔ (slot, entry) ∈ others := by
    rw [one.covers.mem_iff, other.covers.mem_iff, RankedStore.entry?, RankedStore.entry?, slots]
  refine {
    config := congrArg (fun cache => cache.config) same
    index := congrArg (fun cache => cache.index) same
    slots := slots
    ranks := Std.TreeMap.Equiv.of_forall_constGet?_eq fun rank => Option.ext fun slot => ?_
    nextSequence := congrArg (fun cache => cache.store.nextSequence) same
    metrics := congrArg (fun cache => cache.metrics) same }
  rw [one.ranked rank slot, other.ranked rank slot]
  simp only [held]

namespace Coincides

variable {left right : Cache .lfu κ ν}

/-- The entries stand in the same order. -/
theorem entries_eq (coincides : left.Coincides right) : left.entries = right.entries := by
  have ranks := coincides.ranks.toList_eq
  change left.store.ranking.slots.filterMap left.store.slots.get? =
    right.store.ranking.slots.filterMap right.store.slots.get?
  rw [Ranking.slots, Ranking.slots, ranks, coincides.slots]

/-- The queues are one. -/
theorem queue_eq (coincides : left.Coincides right) : left.queue = right.queue := by
  have capacity : left.capacity = right.capacity :=
    congrArg (fun config => config.capacity.entries) coincides.config
  have fresh : Policy.fresh .lfu left.store = Policy.fresh .lfu right.store :=
    congrArg Rank.initial coincides.nextSequence
  rw [queue, queue, capacity, coincides.entries_eq, fresh]

end Coincides

end Ranked

section Counting

variable [EquivBEq κ] [LawfulHashable κ] [BEq ν] {left right : Cache policy κ ν}
  {queue : Queue policy κ ν}

/-- Caches with one queue that have counted the same go on counting the same. -/
theorem Represents.counted_run (one : left.Represents queue) (other : right.Represents queue)
    (same : left.metrics.counted = right.metrics.counted) (calls : List (Call κ ν ε ρ)) :
    (left.run calls).state.metrics.counted = (right.run calls).state.metrics.counted := by
  have singly : ∀ call ∈ calls.flatMap Call.singly, call.Single :=
    fun call => Call.single_of_mem_flatMap_singly
  rw [← (left.run_flatMap_singly calls).1, ← (right.run_flatMap_singly calls).1,
    one.counted_run_single singly, other.counted_run_single singly, same]

end Counting

end Cache

variable [EquivBEq κ] [LawfulHashable κ] [BEq ν]

/-- Whatever a cache that breaks ties by insertion has been through, lookups of some keys leave
it the same in whatever order they are made, be the keys present or absent, looked up once or
more often: the same slots with the same values and ranks, the same figures, the same pair to be
evicted next. Every run after that is answered the same, causes the same events and leaves the
same entries and figures. So when an entry was accessed plays no part in its eviction, only how
often. -/
theorem run_gets_perm (config : CacheConfig) (calls : List (Call κ ν ε ρ)) {keys others : List κ}
    (same : keys.Perm others) :
    let cache := ((Cache.ofConfig config : Cache .lfu κ ν).run calls).state
    let left := (cache.run (keys.map (.get : κ → Call κ ν ε ρ))).state
    let right := (cache.run (others.map (.get : κ → Call κ ν ε ρ))).state
    left.Coincides right ∧ left.entries = right.entries ∧ left.candidate? = right.candidate? ∧
      (∀ key, left.frequency? key = right.frequency? key) ∧
      ∀ later : List (Call κ ν ε ρ),
        (left.run later).answer = (right.run later).answer ∧
          (left.run later).events = (right.run later).events ∧
          (left.run later).state.entries = (right.run later).state.entries ∧
          (left.run later).state.metrics = (right.run later).state.metrics := by
  intro cache left right
  have reached : cache.Represents _ := ((Cache.represents_ofConfig config).run calls).state
  have one : left.Represents _ := (reached.run _).state
  obtain ⟨listing, lists⟩ := one.listed
  obtain ⟨another, also⟩ := (reached.run (others.map (.get : κ → Call κ ν ε ρ))).state.listed
  have unranked : left.unranked = right.unranked := by
    rw [Cache.unranked_run_gets, Cache.unranked_run_gets]
    exact same.foldl_eq' (fun one _ other _ cache => cache.note_comm one other) _
  have coincides : left.Coincides right := lists.coincides also unranked
  have first : left.Represents left.queue := lists.represents rfl
  have second : right.Represents left.queue := also.represents coincides.queue_eq.symm
  refine ⟨coincides, coincides.entries_eq, ?_, fun key => ?_, fun later => ?_⟩
  · rw [first.candidate?_eq, second.candidate?_eq]
  · rw [Cache.frequency?, Cache.frequency?, first.entry?_eq, second.entry?_eq]
  · have run := first.run later
    have follow := second.run later
    have counted := first.counted_run second (congrArg _ coincides.metrics) later
    rw [Metrics.counted_eq_self (by decide), Metrics.counted_eq_self (by decide)] at counted
    refine ⟨run.answer.trans follow.answer.symm, run.events.trans follow.events.symm, ?_, counted⟩
    rw [run.state.entries_eq, follow.state.entries_eq]

/-- With room for two entries that have each been read once, by whichever reading was first, the
entry stored first leaves. -/
theorem run_gets_perm_interleaved :
    let filling : List (Call FoldedKey Nat Unit Unit) := [.put ⟨.text "a"⟩ 1, .put ⟨.text "b"⟩ 2]
    let cache := ((Cache.ofConfig ⟨⟨2, by decide⟩, 16, .threeQuarters⟩ :
      Cache .lfu FoldedKey Nat).run filling).state
    let forth : List FoldedKey := [⟨.text "a"⟩, ⟨.text "c"⟩, ⟨.text "B"⟩]
    let back : List FoldedKey := [⟨.text "B"⟩, ⟨.text "c"⟩, ⟨.text "a"⟩]
    let left := (cache.run (forth.map (.get : _ → Call FoldedKey Nat Unit Unit))).state
    let right := (cache.run (back.map (.get : _ → Call FoldedKey Nat Unit Unit))).state
    forth.Perm back ∧ left.Coincides right ∧
      (left.run [(.push ⟨.text "d"⟩ 4 : Call FoldedKey Nat Unit Unit)]).answer =
        [.pair (some (⟨.text "a"⟩, 1))] ∧
      (right.run [(.push ⟨.text "d"⟩ 4 : Call FoldedKey Nat Unit Unit)]).answer =
        [.pair (some (⟨.text "a"⟩, 1))] := by
  intro filling cache forth back left right
  have same : forth.Perm back := List.reverse_perm back
  obtain ⟨coincides, _, _, _, later⟩ :=
    run_gets_perm ⟨⟨2, by decide⟩, 16, .threeQuarters⟩ filling same
  have reached : left.Represents _ :=
    (((Cache.represents_ofConfig _).run filling).state.run (forth.map .get)).state
  have pushed : (left.run [(.push ⟨.text "d"⟩ 4 : Call FoldedKey Nat Unit Unit)]).answer =
      [.pair (some (⟨.text "a"⟩, 1))] := (reached.run _).answer.trans (by cbv)
  exact ⟨same, coincides, pushed, (later _).1.symm.trans pushed⟩

end EvictionCache
