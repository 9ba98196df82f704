import EvictionCache.Proofs.Cache.Coherence
import EvictionCache.Proofs.Cache.Standing
import EvictionCache.Proofs.Queue.Ledger
import Mathlib

/-!
# The balance of access counts

Under the policies that count accesses the number of increments in the figures balances against
the counts themselves: each increment is in the count of an entry that is there, or it was in
the count of an entry when that entry left. What left is read off the contents before and after
each turn (`Turn.departed`), never off the counters. The balance holds as long as no access finds
a count at its greatest value (`Turn.Saturates`), where counting stops.
-/
namespace EvictionCache

variable {policy : Policy} {κ ν ε ρ : Type} [BEq κ] [Hashable κ]

/-- A cache whose figures tell the number of different counts where they tell a number of
buckets, and zero if there are no entries. -/
def Cache.TellsBuckets (cache : Cache policy κ ν) : Prop :=
  ∀ buckets, policy.activeBuckets? cache.metrics.usage = some buckets →
    buckets = (countsOf cache.observe.sights).dedup.length ∧ (cache.size = 0 → buckets = 0)

namespace Turn

/-- Whether the call accesses an entry whose count cannot go on. -/
def Saturates (turn : Turn policy κ ν ε ρ) : Prop :=
  ∃ count, (turn.accessed?.bind fun entry => policy.frequency? entry.metadata) = some count ∧
    maxAccessCount ≤ count

variable [BEq ν]

/-- What the cache held before the call under keys that are absent after it. -/
def departed (turn : Turn policy κ ν ε ρ) : List (κ × ν × Option Nat) :=
  turn.cache.observe.sights.filter fun sight => !turn.outcome.state.containsKey sight.1

end Turn

namespace Cache

variable [EquivBEq κ] [LawfulHashable κ] [BEq ν] {cache last : Cache policy κ ν}
  {listing : Listing (Entry κ ν policy.Metadata)}

/-- In a cache in order a call parts what was there into what leaves and what stays. -/
theorem Lists.parted (lists : cache.Lists listing)
    (counts : ∀ cell ∈ listing, policy.Counts cell.2.metadata) (counting : policy ≠ .lru)
    {call : Call κ ν ε ρ} (single : call.Single) (unsaturated : ¬ Turn.Saturates ⟨cache, call⟩) :
    cache.queue.Parted (cache.queue.perform call).state
      (Turn.accessed? ⟨cache, call⟩).isSome.toNat (Turn.inserts ⟨cache, call⟩).toNat := by
  have represents : cache.Represents cache.queue := lists.represents rfl
  have accessed : Turn.accessed? ⟨cache, call⟩ = cache.queue.accessed? call :=
    represents.accessed?_eq call
  have inserts : Turn.inserts ⟨cache, call⟩ = cache.queue.inserts call :=
    represents.inserts_eq call
  have fresh : policy.frequency? cache.queue.fresh = some 1 := by
    rw [represents.frequency?_fresh]
    cases policy with
    | lru => exact absurd rfl counting
    | lfu | lfru => rfl
  have known (metadata : policy.Metadata) :
      ∃ count, policy.frequency? metadata = some count := by
    cases policy with
    | lru => exact absurd rfl counting
    | lfu | lfru => exact ⟨_, rfl⟩
  rw [accessed, inserts]
  refine Queue.parted_perform represents.finds represents.nodup
    (List.pairwise_map.mpr represents.apart) fresh single fun entry found => ?_
  obtain ⟨count, counted⟩ := known entry.metadata
  have member := Queue.mem_of_accessed? found
  rw [show cache.queue.entries = listing.map Prod.snd from lists.entries_eq] at member
  obtain ⟨cell, listed, rfl⟩ := List.mem_map.mp member
  refine ⟨count, counted, counts cell listed count counted, Nat.lt_of_not_le fun full => ?_⟩
  refine unsaturated ⟨count, ?_, full⟩
  rw [accessed, found, Option.bind_some, counted]

/-- What leaves takes its accesses along, and the access of the turn is in a count. As many
entries leave as are counted as evicted or removed or logged as cleared. -/
theorem Lists.balance (lists : cache.Lists listing)
    (counts : ∀ cell ∈ listing, policy.Counts cell.2.metadata) (counting : policy ≠ .lru)
    {call : Call κ ν ε ρ} (single : call.Single) (unsaturated : ¬ Turn.Saturates ⟨cache, call⟩) :
    let turn : Turn policy κ ν ε ρ := ⟨cache, call⟩
    excess turn.outcome.state.observe.sights + excess turn.departed =
        excess cache.observe.sights + turn.accessed?.isSome.toNat ∧
      turn.departed.length =
        turn.tally.evictions + turn.tally.removals + clearedIn turn.outcome.events := by
  intro turn
  have represents : cache.Represents cache.queue := lists.represents rfl
  have after : turn.outcome.state.Represents (cache.queue.perform call).state :=
    (represents.perform call).state
  have parted : cache.queue.Parted (cache.queue.perform call).state
      turn.accessed?.isSome.toNat turn.inserts.toNat :=
    lists.parted counts counting single unsaturated
  obtain ⟨leaving, staying, parts, accesses, lengths⟩ := parted
  have departed : turn.departed.Perm leaving := by
    have gone : (fun sight : κ × ν × Option Nat => !turn.outcome.state.containsKey sight.1) =
        fun sight => !(cache.queue.perform call).state.sights.any fun other =>
          other.1 == sight.1 := by
      funext sight
      rw [after.containsKey_eq, Queue.isSome_find?_eq]
    rw [Turn.departed, represents.observe_sights, gone]
    exact parts.perm_leaving
  constructor
  · rw [after.observe_sights, represents.observe_sights, excess_perm departed,
      excess_perm parts.whole, excess_append, accesses]
    omega
  · have books : turn.outcome.state.size + turn.tally.evictions + turn.tally.removals +
        clearedIn turn.outcome.events = cache.size + turn.inserts.toNat :=
      (represents.books_perform single).size
    have whole := parts.whole.length_eq
    rw [List.length_append] at whole
    rw [after.size_eq, represents.size_eq] at books
    rw [Queue.sights, List.length_map] at whole lengths
    rw [departed.length_eq]
    omega

omit [LawfulHashable κ] in
/-- The figures grow by one for the access of the turn, if there is one. -/
theorem Represents.increments_perform {queue : Queue policy κ ν}
    (represents : cache.Represents queue) (counting : policy ≠ .lru) {call : Call κ ν ε ρ}
    (single : call.Single) :
    policy.increments (cache.perform call).state.metrics.usage =
      policy.increments cache.metrics.usage + (Turn.accessed? ⟨cache, call⟩).isSome.toNat := by
  have usage := congrArg policy.increments (represents.usage_perform single)
  rwa [Policy.increments_counted, Policy.increments_mergeUsage, Policy.increments_counted,
    Turn.usage, Policy.increments_added counting] at usage

/-- After a call a cache is in order again, and its entries count at least the access that stored
them. -/
theorem Lists.exists_perform (lists : cache.Lists listing)
    (counts : ∀ cell ∈ listing, policy.Counts cell.2.metadata) (call : Call κ ν ε ρ) :
    ∃ renewed, (cache.perform call).state.Lists renewed ∧
      ∀ cell ∈ renewed, policy.Counts cell.2.metadata :=
  exists_lists_of_changes ((lists.represents rfl).changes_perform call) lists policy.Counts counts
    policy.counts_fresh fun _ => Policy.Counts.accessed

omit [BEq ν] in
/-- Every access is a hit or an update. -/
theorem Represents.isSome_accessed?_eq {queue : Queue policy κ ν}
    (represents : cache.Represents queue) (call : Call κ ν ε ρ) :
    (Turn.accessed? ⟨cache, call⟩).isSome.toNat =
      (Turn.hits ⟨cache, call⟩).toNat + (Turn.updates ⟨cache, call⟩).toNat := by
  rw [represents.isSome_accessed?, Turn.hits, Turn.updates]
  generalize Turn.finds ⟨cache, call⟩ = finds
  -- No call both looks up and stores.
  cases call <;> cases finds <;> rfl

end Cache

namespace Turn

variable [EquivBEq κ] [LawfulHashable κ] [BEq ν] {cache last : Cache policy κ ν}
  {listing : Listing (Entry κ ν policy.Metadata)} {turns : List (Turn policy κ ν ε ρ)}

/-- A cache whose increments are all accounted for after some turns: they are the hits and the
updates, and they are in the counts of what is there and of what left. -/
structure Balanced (cache : Cache policy κ ν) (turns : List (Turn policy κ ν ε ρ)) : Prop where
  /-- Every increment is in a count. -/
  increments : policy.increments cache.metrics.usage =
    excess cache.observe.sights + (turns.map fun turn => excess turn.departed).sum
  /-- As many entries left as were evicted, removed or cleared. -/
  departed : ∀ turn ∈ turns, turn.departed.length =
    turn.tally.evictions + turn.tally.removals + clearedIn turn.outcome.events

/-- A turn that does not saturate keeps the balance. -/
theorem balanced_perform (lists : cache.Lists listing)
    (counts : ∀ cell ∈ listing, policy.Counts cell.2.metadata) (counting : policy ≠ .lru)
    {call : Call κ ν ε ρ} (single : call.Single) (unsaturated : ¬ Saturates ⟨cache, call⟩)
    (balanced : Balanced cache turns) :
    Balanced (cache.perform call).state (turns ++ [⟨cache, call⟩]) := by
  obtain ⟨accesses, gone⟩ := lists.balance counts counting single unsaturated
  have added := (lists.represents rfl).increments_perform counting single
  refine ⟨?_, fun turn member => ?_⟩
  · have before := balanced.increments
    rw [List.map_append, List.sum_append, List.map_singleton, List.sum_singleton, added, before]
    have after : excess (cache.perform call).state.observe.sights +
      excess (departed ⟨cache, call⟩) = _ := accesses
    omega
  · rcases List.mem_append.mp member with old | new
    · exact balanced.departed turn old
    · rw [List.mem_singleton.mp new]
      exact gone

/-- Turns that do not saturate keep the balance. -/
theorem Lead.balanced (lead : Lead cache turns last) (lists : cache.Lists listing)
    (counts : ∀ cell ∈ listing, policy.Counts cell.2.metadata) (counting : policy ≠ .lru)
    (single : ∀ turn ∈ turns, turn.call.Single) (unsaturated : ∀ turn ∈ turns, ¬ turn.Saturates)
    {past : List (Turn policy κ ν ε ρ)} (balanced : Balanced cache past) :
    Balanced last (past ++ turns) := by
  induction lead generalizing listing past with
  | nil cache =>
    rw [List.append_nil]
    exact balanced
  | cons turn later ih =>
    obtain ⟨one, others⟩ := List.forall_mem_cons.mp single
    obtain ⟨now, rest⟩ := List.forall_mem_cons.mp unsaturated
    obtain ⟨renewed, inOrder, carried⟩ := lists.exists_perform counts turn.call
    have after := ih inOrder carried others rest
      (balanced_perform lists counts counting one now balanced)
    rwa [List.append_assoc] at after

omit [LawfulHashable κ] in
/-- A count is no greater than the number of turns that there were before, with the access that
stored its entry. So a turn does not saturate as long as there were few enough. -/
theorem Balanced.unsaturated (balanced : Balanced cache turns) (lists : cache.Lists listing)
    (increments : policy.increments cache.metrics.usage ≤ turns.length)
    (few : turns.length + 1 < maxAccessCount) (call : Call κ ν ε ρ) :
    ¬ Saturates ⟨cache, call⟩ := by
  rintro ⟨count, counted, full⟩
  have represents : cache.Represents cache.queue := lists.represents rfl
  obtain ⟨entry, accessed, counted⟩ := Option.bind_eq_some_iff.mp counted
  rw [represents.accessed?_eq] at accessed
  have member : policy.sight entry ∈ cache.observe.sights := by
    rw [represents.observe_sights]
    exact List.mem_map_of_mem (Queue.mem_of_accessed? accessed)
  have bounded : count - 1 ≤ excess cache.observe.sights := le_excess member counted
  have total := balanced.increments
  omega

/-- Fewer turns than the greatest count do not saturate. -/
theorem Lead.unsaturated (lead : Lead cache turns last) (lists : cache.Lists listing)
    (counts : ∀ cell ∈ listing, policy.Counts cell.2.metadata) (counting : policy ≠ .lru)
    (single : ∀ turn ∈ turns, turn.call.Single) {past : List (Turn policy κ ν ε ρ)}
    (balanced : Balanced cache past)
    (increments : policy.increments cache.metrics.usage ≤ past.length)
    (few : past.length + turns.length < maxAccessCount) : ∀ turn ∈ turns, ¬ turn.Saturates := by
  induction lead generalizing listing past with
  | nil cache => exact fun turn member => nomatch member
  | cons turn later ih =>
    obtain ⟨one, others⟩ := List.forall_mem_cons.mp single
    rw [List.length_cons] at few
    have now := balanced.unsaturated lists increments (by omega) turn.call
    obtain ⟨renewed, inOrder, carried⟩ := lists.exists_perform counts turn.call
    have after := balanced_perform lists counts counting one now balanced
    have added := (lists.represents rfl).increments_perform counting one
    have once : ∀ found : Bool, found.toNat ≤ 1 := Bool.toNat_le
    refine List.forall_mem_cons.mpr ⟨now, ih inOrder carried others after ?_ ?_⟩
    · have single := once (accessed? ⟨turn.cache, turn.call⟩).isSome
      rw [List.length_append, List.length_singleton]
      change policy.increments (turn.cache.perform turn.call).state.metrics.usage ≤ _
      omega
    · rw [List.length_append, List.length_singleton]
      omega

/-- If every increment was a hit or an update before some turns, it is so after them. -/
theorem Lead.increments_eq {queue : Queue policy κ ν} (lead : Lead cache turns last)
    (represents : cache.Represents queue) (counting : policy ≠ .lru)
    (single : ∀ turn ∈ turns, turn.call.Single)
    (same : policy.increments cache.metrics.usage =
      cache.metrics.core.hits + cache.metrics.core.updates) :
    policy.increments last.metrics.usage =
      last.metrics.core.hits + last.metrics.core.updates := by
  induction lead generalizing queue with
  | nil cache => exact same
  | cons turn later ih =>
    obtain ⟨one, others⟩ := List.forall_mem_cons.mp single
    refine ih (represents.perform turn.call).state others ?_
    have core := (represents.books_perform one).core
    have hits : (turn.cache.perform turn.call).state.metrics.core.hits =
        turn.cache.metrics.core.hits + turn.hits.toNat := congrArg CoreMetrics.hits core
    have updates : (turn.cache.perform turn.call).state.metrics.core.updates =
        turn.cache.metrics.core.updates + turn.updates.toNat := congrArg CoreMetrics.updates core
    have added := represents.increments_perform counting one
    have accessed : turn.accessed?.isSome.toNat = turn.hits.toNat + turn.updates.toNat :=
      represents.isSome_accessed?_eq turn.call
    change policy.increments (turn.cache.perform turn.call).state.metrics.usage =
      (turn.cache.perform turn.call).state.metrics.core.hits +
        (turn.cache.perform turn.call).state.metrics.core.updates
    rw [hits, updates, added, accessed]
    omega

end Turn

variable [EquivBEq κ] [LawfulHashable κ] [BEq ν]

/-- After every run of a cache that counts accesses the increments in its figures are the hits
and the updates. As long as no access found a count at its greatest value, which takes as many
calls as that, they are also the accesses in the counts of all entries that are there, together
with those in the counts of all entries that were evicted, removed, popped or cleared, each as it
was when the entry left. The number of buckets in the figures, where there are buckets, is the
number of different counts, and zero for an empty cache. Pairs that are stored together count as
stored one by one. -/
theorem run_increments (counting : policy ≠ .lru) (config : CacheConfig)
    (calls : List (Call κ ν ε ρ)) :
    let start : Cache policy κ ν := .ofConfig config
    let cache := (start.run calls).state
    let turns := start.turns (calls.flatMap Call.singly)
    policy.increments cache.metrics.usage =
        cache.metrics.core.hits + cache.metrics.core.updates ∧
      ((∀ turn ∈ turns, ¬ turn.Saturates) → Turn.Balanced cache turns) ∧
      ((calls.flatMap Call.singly).length < maxAccessCount → ∀ turn ∈ turns, ¬ turn.Saturates) ∧
      cache.TellsBuckets := by
  intro start cache turns
  obtain ⟨lead, single⟩ := start.turns_singly_lead calls
  have empty : start.Lists [] := Cache.lists_ofConfig config
  have uncounted : ∀ cell ∈ ([] : Listing (Entry κ ν policy.Metadata)),
      policy.Counts cell.2.metadata := fun cell member => nomatch member
  have fresh : policy.increments start.metrics.usage = 0 := by
    cases policy <;> rfl
  have before : Turn.Balanced start ([] : List (Turn policy κ ν ε ρ)) := by
    have nothing : excess start.observe.sights = 0 := by
      rw [(Cache.represents_ofConfig config).observe_sights]
      rfl
    exact ⟨by rw [fresh, nothing]; rfl, fun turn member => nomatch member⟩
  refine ⟨?hits, fun unsaturated => ?balance, fun few => ?few, fun buckets known => ?buckets⟩
  case hits =>
    exact lead.increments_eq (Cache.represents_ofConfig config) counting single fresh
  case balance => exact lead.balanced empty uncounted counting single unsaturated before
  case few =>
    refine lead.unsaturated empty uncounted counting single before fresh.le ?_
    have lengths := congrArg List.length (start.map_call_turns (calls.flatMap Call.singly))
    rw [List.length_map] at lengths
    rwa [List.length_nil, Nat.zero_add, lengths]
  case buckets =>
    have counted : buckets = (countsOf cache.observe.sights).dedup.length := by
      cases policy with
      | lru | lfu => cases known
      | lfru =>
        rw [← Option.some.inj known]
        exact Cache.activeBuckets_run config calls
    refine ⟨counted, fun void => ?_⟩
    have represents : cache.Represents _ := ((Cache.represents_ofConfig config).run calls).state
    have unseen : cache.observe.sights = [] := by
      rw [represents.size_eq, List.length_eq_zero_iff] at void
      rw [represents.observe_sights, Queue.sights, void, List.map_nil]
    rw [counted, unseen]
    rfl

/-- With room for two entries, the one that was read leaves: its access is no longer in the counts
that are there, where only that of the one that was replaced is left. -/
theorem run_increments_evicted :
    let start : Cache .lfru Nat Nat := .ofConfig ⟨⟨2, by decide⟩, 16, .threeQuarters⟩
    let calls : List (Call Nat Nat Unit Unit) :=
      [.put 1 10, .get 1, .extend [(2, 20), (2, 21)], .push 3 30]
    let cache := (start.run calls).state
    let turns := start.turns (calls.flatMap Call.singly)
    Policy.lfru ≠ .lru ∧ (∀ turn ∈ turns, ¬ turn.Saturates) ∧ Turn.Balanced cache turns ∧
      countsOf cache.observe.sights = [1, 2] ∧ cache.TellsBuckets := by
  intro start calls cache turns
  have counting : Policy.lfru ≠ .lru := by decide
  obtain ⟨_, balanced, unsaturated, buckets⟩ :=
    run_increments counting ⟨⟨2, by decide⟩, 16, .threeQuarters⟩ calls
  have few : ∀ turn ∈ turns, ¬ turn.Saturates := unsaturated (by decide)
  have counts : countsOf cache.observe.sights = [1, 2] := by
    rw [((Cache.represents_ofConfig _).run calls).state.observe_sights]
    cbv
  exact ⟨counting, few, balanced few, counts, buckets⟩

end EvictionCache
