import EvictionCache.Proofs.Cache.Books
import EvictionCache.Proofs.Cache.Observation
import EvictionCache.Proofs.Queue.Contents
import Mathlib

/-!
# The figures about counts

What a policy keeps about access counts is of two kinds. Most figures only grow: every access to
a present key adds to them what that access reached (`Turn.usage`), and nothing else changes
them. The number of buckets is the other kind: it is read off the store after every change, and
is the number of different counts among the entries.
-/
namespace EvictionCache

open Relation (ReflTransGen)

variable {policy : Policy} {κ ν ε ρ : Type}

namespace Policy

/-- The figures that only grow; the number of buckets is left out. -/
def counted : (policy : Policy) → policy.Usage → policy.Usage
  | lru, _ => ()
  | lfu, usage => usage
  | lfru, usage => BucketUsage.observe usage 0

/-- What an access adds to the figures, given what the entry carries after it. -/
def reached : (policy : Policy) → policy.Metadata → policy.Usage
  | lru, _ => ()
  | lfu, rank => ⟨rank.frequency, 1⟩
  | lfru, _ => ⟨1, 0⟩

/-- The number of accesses to present entries, where the policy counts them. -/
def increments : (policy : Policy) → policy.Usage → Nat
  | lru, _ => 0
  | lfu, usage => usage.increments
  | lfru, usage => usage.increments

/-- The figures of a new cache add nothing to others. -/
@[simp] theorem mergeUsage_fresh (usage : policy.Usage) :
    policy.mergeUsage usage policy.freshUsage = usage := by
  cases policy with
  | lru | lfru => rfl
  | lfu => exact congrArg (RankedUsage.mk · _) (Nat.max_zero _)

/-- Figures are merged one after another as they are together. -/
theorem mergeUsage_assoc (one other another : policy.Usage) :
    policy.mergeUsage (policy.mergeUsage one other) another =
      policy.mergeUsage one (policy.mergeUsage other another) := by
  cases policy with
  | lru => rfl
  | lfu => exact congrArg₂ RankedUsage.mk (Nat.max_assoc ..) (Nat.add_assoc ..)
  | lfru => exact congrArg₂ BucketUsage.mk (Nat.add_assoc ..) (Nat.add_assoc ..)

/-- Figures are merged in either order. -/
theorem mergeUsage_comm (one other : policy.Usage) :
    policy.mergeUsage one other = policy.mergeUsage other one := by
  cases policy with
  | lru => rfl
  | lfu => exact congrArg₂ RankedUsage.mk (Nat.max_comm ..) (Nat.add_comm ..)
  | lfru => exact congrArg₂ BucketUsage.mk (Nat.add_comm ..) (Nat.add_comm ..)

/-- Accesses are counted together as they are apart. -/
theorem increments_mergeUsage (one other : policy.Usage) :
    policy.increments (policy.mergeUsage one other) =
      policy.increments one + policy.increments other := by
  cases policy <;> rfl

/-- The accesses are among the figures that only grow. -/
@[simp] theorem increments_counted (usage : policy.Usage) :
    policy.increments (policy.counted usage) = policy.increments usage := by
  cases policy <;> rfl

/-- The shape of a store is not among the figures that only grow. -/
@[simp] theorem counted_recordShape (usage : policy.Usage) (store : policy.Store κ ν) :
    policy.counted (policy.recordShape usage store) = policy.counted usage := by
  cases policy <;> rfl

/-- An access adds what it reached. -/
theorem counted_recordAccess (usage : policy.Usage) {store : policy.Store κ ν} {slot : SlotId}
    {entry : Entry κ ν policy.Metadata} (held : Policy.entry? policy store slot = some entry) :
    policy.counted (policy.recordAccess usage store slot) =
      policy.mergeUsage (policy.counted usage) (policy.reached entry.metadata) := by
  cases policy with
  | lru => rfl
  | lfu =>
    have held : RankedStore.entry? store slot = some entry := held
    rw [recordAccess, held]
    rfl
  | lfru =>
    have held : BucketedStore.entry? store slot = some entry := held
    rw [recordAccess, held]
    rfl

/-- What an access to an entry adds to the figures; without an entry that is nothing. -/
def added (policy : Policy) (entry : Option (Entry κ ν policy.Metadata)) : policy.Usage :=
  entry.elim policy.freshUsage fun entry => policy.reached (policy.accessed entry.metadata)

/-- What an access adds depends on what the entry looks like. -/
theorem added_congr {entry other : Option (Entry κ ν policy.Metadata)}
    (same : entry.map policy.sight = other.map policy.sight) :
    policy.added entry = policy.added other := by
  cases entry with
  | none =>
    rw [Option.map_none, eq_comm, Option.map_eq_none_iff] at same
    rw [same]
  | some entry =>
    obtain ⟨another, rfl, sight⟩ := Option.map_eq_some_iff.mp same.symm
    have counts := congrArg (fun sight => sight.2.2) sight
    cases policy with
    | lru | lfru => rfl
    | lfu =>
      have counts : another.metadata.frequency = entry.metadata.frequency := Option.some.inj counts
      exact congrArg (fun count => RankedUsage.mk (nextCount count) 1) counts.symm

/-- An access to an entry is counted as one, where accesses are counted. -/
theorem increments_added (counts : policy ≠ .lru)
    (entry : Option (Entry κ ν policy.Metadata)) :
    policy.increments (policy.added entry) = entry.isSome.toNat := by
  cases policy with
  | lru => exact absurd rfl counts
  | lfu | lfru => cases entry <;> rfl

/-- The number of buckets with entries, under the policy that keeps buckets. -/
def activeBuckets? : (policy : Policy) → policy.Usage → Option Nat
  | lfru, usage => some usage.activeBuckets
  | lru, _ | lfu, _ => none

end Policy

/-- Core counts are merged in either order. -/
theorem CoreMetrics.merge_comm (one other : CoreMetrics) : one.merge other = other.merge one := by
  simp only [merge, Nat.add_comm]

namespace Metrics

/-- Metrics are added up by merging them. -/
instance : Add (Metrics policy) := ⟨merge⟩

/-- Nothing has happened yet. -/
instance : Zero (Metrics policy) := ⟨fresh⟩

/-- Merging depends neither on order nor on grouping. -/
instance : AddCommMonoid (Metrics policy) where
  add_assoc one other another :=
    congrArg₂ mk (CoreMetrics.merge_assoc ..) (policy.mergeUsage_assoc ..)
  add_comm one other :=
    congrArg₂ mk (CoreMetrics.merge_comm ..) (policy.mergeUsage_comm ..)
  zero_add metrics := (congrArg₂ mk (CoreMetrics.merge_comm ..)
    (policy.mergeUsage_comm ..)).trans (congrArg (mk metrics.core) (policy.mergeUsage_fresh _))
  add_zero metrics := congrArg (mk metrics.core) (policy.mergeUsage_fresh _)
  nsmul := nsmulRec

/-- The metrics without the number of buckets, which does not add up. -/
def counted (metrics : Metrics policy) : Metrics policy :=
  { metrics with usage := policy.counted metrics.usage }

/-- Under a policy without buckets all metrics add up. -/
theorem counted_eq_self (without : policy ≠ .lfru) (metrics : Metrics policy) :
    metrics.counted = metrics := by
  cases policy with
  | lru | lfu => rfl
  | lfru => exact absurd rfl without

/-- What adds up is added up by merging. -/
theorem counted_add (one other : Metrics policy) :
    (one + other).counted = one.counted + other.counted := by
  cases policy <;> rfl

/-- What adds up is added up by merging any number of metrics. -/
theorem counted_foldr_merge (all : List (Metrics policy)) :
    (all.foldr merge fresh).counted = (all.map counted).sum := by
  induction all with
  | nil => cases policy <;> rfl
  | cons first rest ih => exact (counted_add first _).trans (congrArg (first.counted + ·) ih)

end Metrics

namespace Turn

variable [BEq κ] [Hashable κ]

/-- The entry that the call accesses. -/
def accessed? (turn : Turn policy κ ν ε ρ) : Option (Entry κ ν policy.Metadata) :=
  if turn.call.looksUp || turn.call.stores then
    turn.call.key?.bind <| Cache.entry? (turn.cache)
  else none

/-- What the turn should add to the figures about counts. -/
def usage (turn : Turn policy κ ν ε ρ) : policy.Usage := policy.added turn.accessed?

/-- All that the turn should count. -/
def figures [BEq ν] (turn : Turn policy κ ν ε ρ) : Metrics policy := ⟨turn.tally, turn.usage⟩

/-- Turns of one call that find, evict and remove alike should count the same. -/
theorem tally_congr [BEq ν] {one other : Policy} {left : Turn one κ ν ε ρ}
    {right : Turn other κ ν ε ρ} (call : left.call = right.call)
    (finds : left.finds = right.finds) (evicts : left.evicts = right.evicts)
    (removes : left.removes = right.removes) : left.tally = right.tally := by
  simp only [tally, hits, inserts, updates, call, finds, evicts, removes]

end Turn

namespace Cache

variable [BEq κ] [Hashable κ] {cache : Cache policy κ ν} {queue : Queue policy κ ν}

/-- Counting an access adds what it reached. -/
theorem Lists.usage_touch {listing : Listing (Entry κ ν policy.Metadata)} {slot : SlotId}
    {entry : Entry κ ν policy.Metadata} (lists : cache.Lists listing)
    (member : (slot, entry) ∈ listing) :
    policy.counted (cache.touch slot).metrics.usage =
      policy.mergeUsage (policy.counted cache.metrics.usage) (policy.added (some entry)) := by
  have placed := (lists.touch member).entryAt?_eq
    ((Policy.placeCell_perm _ _).mem_iff.mpr List.mem_cons_self)
  exact Policy.counted_recordAccess _ placed

/-- Taking the first entry adds nothing. -/
theorem usage_takeFirst (cache : Cache policy κ ν) :
    policy.counted cache.takeFirst.2.metrics.usage = policy.counted cache.metrics.usage := by
  rw [takeFirst]
  split
  · rfl
  · exact Policy.counted_recordShape _ _

/-- Making room adds nothing. -/
theorem usage_makeRoom (cache : Cache policy κ ν) :
    policy.counted cache.makeRoom.state.metrics.usage = policy.counted cache.metrics.usage := by
  have taken := cache.usage_takeFirst
  rw [makeRoom]
  split
  · split
    · next nothing => rwa [nothing] at taken
    · next removed => rwa [removed] at taken
  · rfl

/-- Removing the first entry on request adds nothing. -/
theorem usage_pop (cache : Cache policy κ ν) :
    policy.counted cache.pop.state.metrics.usage = policy.counted cache.metrics.usage := by
  have taken := cache.usage_takeFirst
  rw [pop]
  split
  · next nothing => rwa [nothing] at taken
  · next removed => rwa [removed] at taken

/-- Removing a key adds nothing. -/
theorem usage_removeEntry (cache : Cache policy κ ν) (key : κ) :
    policy.counted (cache.removeEntry key).state.metrics.usage =
      policy.counted cache.metrics.usage := by
  rw [removeEntry]
  cases cache.index[key]? with
  | none => rfl
  | some slot =>
    dsimp only
    split
    · rfl
    · exact Policy.counted_recordShape _ _

/-- The metrics do not depend on what an action leaves. -/
theorem metrics_visit (cache : Cache policy κ ν) (key : κ) (action : ν → ν × ρ) :
    (cache.visit key action).state.metrics = (cache.access key).2.metrics := by
  rw [visit]
  split
  · next missed => rw [missed]; rfl
  · next hit => rw [hit]; rfl

namespace Represents

/-- The sights of a cache are those of its queue. -/
theorem observe_sights (represents : cache.Represents queue) :
    cache.observe.sights = queue.sights := by
  rw [observe, represents.entries_eq]
  rfl

variable [EquivBEq κ]

/-- A turn accesses the entry that the queue finds. -/
theorem accessed?_eq (represents : cache.Represents queue) (call : Call κ ν ε ρ) :
    Turn.accessed? ⟨cache, call⟩ =
      if call.looksUp || call.stores then call.key?.bind queue.find? else none := by
  rw [Turn.accessed?, show Cache.entry? cache = queue.find? from funext represents.entry?_eq]

/-- A turn accesses an entry if it finds one. -/
theorem isSome_accessed? [LawfulHashable κ] (represents : cache.Represents queue)
    (call : Call κ ν ε ρ) : (Turn.accessed? ⟨cache, call⟩).isSome =
      ((call.looksUp || call.stores) && Turn.finds ⟨cache, call⟩) := by
  rw [represents.accessed?_eq, Turn.finds,
    show cache.containsKey = fun key => (queue.find? key).isSome from
      funext represents.containsKey_eq]
  cases call.looksUp || call.stores <;> cases call.key? <;> rfl

/-- An access adds what it reached. -/
theorem usage_access (represents : cache.Represents queue) (key : κ) :
    policy.counted (cache.access key).2.metrics.usage =
      policy.mergeUsage (policy.counted cache.metrics.usage)
        (policy.added <| Cache.entry? cache key) := by
  obtain ⟨listing, lists⟩ := represents.listed
  unfold Cache.entry?
  cases found : cache.index[key]? with
  | none =>
    rw [access_of_none found]
    exact (Policy.mergeUsage_fresh _).symm
  | some slot =>
    obtain ⟨entry, member, _, _⟩ := lists.exists_entry found
    rw [lists.access_of_some found member, Option.bind_some, lists.entryAt?_eq member]
    exact (lists.withMetrics (cache.record .recordHit).metrics).usage_touch member

/-- Storing a value adds what it reached if the key is present. -/
theorem usage_insert (represents : cache.Represents queue) (key : κ) (value : ν) :
    policy.counted (cache.insert key value).state.metrics.usage =
      policy.mergeUsage (policy.counted cache.metrics.usage)
        (policy.added <| Cache.entry? cache key) := by
  obtain ⟨listing, lists⟩ := represents.listed
  rw [Cache.insert, Cache.entry?]
  cases found : cache.index[key]? with
  | none =>
    refine (Policy.counted_recordShape _ _).trans ?_
    exact cache.usage_makeRoom.trans (Policy.mergeUsage_fresh _).symm
  | some slot =>
    obtain ⟨entry, member, _, _⟩ := lists.exists_entry found
    have updated := (lists.withMetrics (cache.record .recordUpdate).metrics).usage_touch member
    rw [Option.bind_some, lists.entryAt?_eq member]
    dsimp only [replace]
    split <;> exact updated

variable [BEq ν]

/-- Every call adds what its turn should add to the figures that only grow. -/
theorem usage_perform (represents : cache.Represents queue) {call : Call κ ν ε ρ}
    (single : call.Single) :
    policy.counted (cache.perform call).state.metrics.usage =
      policy.mergeUsage (policy.counted cache.metrics.usage) (Turn.usage ⟨cache, call⟩) := by
  have still {changed : policy.Usage} (same : policy.counted changed = _) :
      policy.counted changed =
        policy.mergeUsage (policy.counted cache.metrics.usage) policy.freshUsage :=
    same.trans (Policy.mergeUsage_fresh _).symm
  cases call with
  | get key | getWith key _ => exact represents.usage_access key
  | getMut key _ | getMutWith key _ =>
    exact (congrArg _ (congrArg _ (cache.metrics_visit key _))).trans (represents.usage_access key)
  | put key value | push key value => exact represents.usage_insert key value
  | extend => exact absurd single id
  | remove key => exact still (cache.usage_removeEntry key)
  | pop => exact still cache.usage_pop
  | clear => exact still (Policy.counted_recordShape _ _)
  | peek | frequency | containsKey | containsValue | isEmpty | size | capacity | candidate
  | toList => exact still rfl

/-- Every call adds what its turn should count. -/
theorem counted_perform [LawfulHashable κ] (represents : cache.Represents queue)
    {call : Call κ ν ε ρ} (single : call.Single) :
    (cache.perform call).state.metrics.counted =
      cache.metrics.counted + Turn.figures ⟨cache, call⟩ :=
  congrArg₂ Metrics.mk (represents.books_perform single).core (represents.usage_perform single)

end Represents

end Cache

namespace Cache

variable [BEq κ] [Hashable κ] {cache changed : Cache .lfru κ ν}
  {listing : Listing (Entry κ ν AccessCount)}

/-- An access leaves the number of buckets in the figures. -/
theorem Lists.activeBuckets_touch (lists : cache.Lists listing) {slot : SlotId}
    {entry : Entry κ ν AccessCount} (held : cache.entryAt? slot = some entry) :
    (cache.touch slot).metrics.usage.activeBuckets =
      (cache.touch slot).store.buckets.size := by
  have placed : BucketedStore.entry? (cache.touch slot).store slot = _ :=
    (lists.touch (lists.mem_iff.mpr held)).entryAt?_eq
      ((Policy.placeCell_perm _ _).mem_iff.mpr List.mem_cons_self)
  change BucketUsage.activeBuckets (Policy.recordAccess .lfru cache.metrics.usage
    (cache.touch slot).store slot) = _
  rw [Policy.recordAccess, placed]
  rfl

/-- Every elementary change leaves the number of buckets in the figures. -/
theorem Change.activeBuckets_eq (change : cache.Change changed) (lists : cache.Lists listing)
    (known : cache.metrics.usage.activeBuckets = cache.store.buckets.size) :
    changed.metrics.usage.activeBuckets = changed.store.buckets.size := by
  cases change with
  | miss | write slot value => exact known
  | hit held | update held => exact Lists.activeBuckets_touch (lists.withMetrics _) held
  | store | evict | remove | clear => rfl

/-- There is a bucket for every count. -/
theorem Lists.buckets_size (lists : cache.Lists listing) :
    cache.store.buckets.size = (countsOf cache.observe.sights).dedup.length := by
  have keys : cache.store.buckets.chains.keys.Perm (countsOf cache.observe.sights).dedup := by
    refine (List.perm_ext_iff_of_nodup Std.TreeMap.nodup_keys (List.nodup_dedup _)).mpr ?_
    intro count
    rw [Std.TreeMap.mem_keys, lists.store.mem_chains_iff, List.mem_dedup, countsOf, observe,
      lists.entries_eq]
    simp [Policy.observe, Policy.sight, Policy.frequency?]
  rw [← keys.length_eq, Std.TreeMap.length_keys]
  rfl

variable [EquivBEq κ] [LawfulHashable κ]

/-- Elementary changes leave the number of buckets in the figures. -/
theorem activeBuckets_of_changes (changes : ReflTransGen Change cache changed)
    (lists : cache.Lists listing)
    (known : cache.metrics.usage.activeBuckets = cache.store.buckets.size) :
    changed.metrics.usage.activeBuckets = changed.store.buckets.size := by
  induction changes with
  | refl => exact known
  | tail before change ih =>
    obtain ⟨between, inOrder, _⟩ := exists_lists_of_changes before lists (fun _ => True)
      (fun _ _ => trivial) (fun _ => trivial) fun _ _ => trivial
    exact change.activeBuckets_eq inOrder ih

variable [BEq ν]

/-- After every run the figures tell how many different counts there are. -/
theorem activeBuckets_run (config : CacheConfig) (calls : List (Call κ ν ε ρ)) :
    let cache : Cache .lfru κ ν := ((ofConfig config).run calls).state
    cache.metrics.usage.activeBuckets = (countsOf cache.observe.sights).dedup.length := by
  obtain ⟨listing, lists⟩ := ((represents_ofConfig config).run calls).state.listed
  exact (activeBuckets_of_changes (changes_ofConfig config calls) (lists_ofConfig config) rfl).trans
    lists.buckets_size

end Cache

end EvictionCache
