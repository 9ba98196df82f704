import EvictionCache.Proofs.Cache.Queue
import EvictionCache.Proofs.Cache.Turns

/-!
# Every operation refines its queue

Each operation on a cache matches the same operation on the queue that the cache represents.
-/
namespace EvictionCache.Cache

variable {policy : Policy} {κ ν ε ρ : Type} [BEq κ] [Hashable κ]

/-- A cache without entries represents a queue without entries. -/
theorem represents_ofConfig [EquivBEq κ] [LawfulHashable κ] (config : CacheConfig) :
    (ofConfig config : Cache policy κ ν).Represents (.ofCapacity config.capacity) where
  listed := ⟨[], lists_ofConfig config⟩
  queue_eq := by
    rw [queue, Cache.entries, show (ofConfig config : Cache policy κ ν).store = policy.emptyStore
      from rfl, policy.lists_emptyStore.entries_eq]
    cases policy <;> rfl

/-- An access to an absent key is only counted. -/
theorem access_of_none {cache : Cache policy κ ν} {key : κ}
    (absent : cache.index[key]? = none) :
    cache.access key = (none, cache.record .recordMiss) := by
  rw [access, absent]

/-- An access to a present key finds its entry in its new place. -/
theorem Lists.access_of_some {cache : Cache policy κ ν}
    {listing : Listing (Entry κ ν policy.Metadata)} {key : κ} {slot : SlotId}
    {entry : Entry κ ν policy.Metadata} (lists : cache.Lists listing)
    (found : cache.index[key]? = some slot) (member : (slot, entry) ∈ listing) :
    cache.access key =
      (some (slot, entry.withMetadata (policy.accessed entry.metadata)),
        (cache.record .recordHit).touch slot) := by
  have hit := (lists.withMetrics (cache.record .recordHit).metrics).touch member
  have placed := hit.entryAt?_eq ((Policy.placeCell_perm _ _).mem_iff.mpr List.mem_cons_self)
  rw [access, found]
  exact Prod.ext (congrArg (Option.map (slot, ·)) placed) rfl

namespace Represents

variable {cache : Cache policy κ ν} {queue : Queue policy κ ν}

/-- Metrics take no part. -/
theorem withMetrics (represents : cache.Represents queue) (metrics : Metrics policy) :
    Represents { cache with metrics } queue := by
  obtain ⟨⟨listing, lists⟩, same⟩ := represents
  exact ⟨⟨listing, lists.withMetrics metrics⟩, same⟩

/-- Both have the same capacity, and something fits. -/
theorem capacity_pos (represents : cache.Represents queue) : 0 < queue.capacity := by
  rw [← represents.queue_eq]
  exact cache.config.capacity.positive

/-- The same number of entries fits. -/
theorem capacity_eq (represents : cache.Represents queue) : cache.capacity = queue.capacity :=
  congrArg Queue.capacity represents.queue_eq

/-- The queue holds the entries of the cache. -/
theorem entries_eq (represents : cache.Represents queue) : cache.entries = queue.entries := by
  rw [← represents.queue_eq]
  rfl

/-- The queue is as long as the cache is large. -/
theorem size_eq (represents : cache.Represents queue) : cache.size = queue.entries.length := by
  obtain ⟨⟨listing, lists⟩, rfl⟩ := represents
  rw [lists.size_eq, ← List.length_map Prod.snd, ← lists.entries_eq]
  rfl

/-- The queue is never longer than its capacity. -/
theorem length_le (represents : cache.Represents queue) :
    queue.entries.length ≤ queue.capacity := by
  rw [← represents.size_eq, ← represents.queue_eq]
  obtain ⟨listing, lists⟩ := represents.listed
  exact lists.size_le

/-- A cache in order never holds more than fits. -/
theorem size_le (represents : cache.Represents queue) : cache.size ≤ cache.capacity := by
  rw [represents.size_eq, represents.capacity_eq]
  exact represents.length_le

/-- Both would let go of the same entry. -/
theorem candidate?_eq (represents : cache.Represents queue) :
    cache.candidate? = queue.entries.head?.map Entry.pair := by
  obtain ⟨⟨listing, lists⟩, rfl⟩ := represents
  have entries : cache.queue.entries = listing.map Prod.snd := lists.entries_eq
  rw [candidate?, lists.store.first?_eq, entries]
  cases listing with
  | nil => rfl
  | cons cell rest =>
    change ((cache.entryAt? cell.1).map Entry.pair) = _
    rw [lists.entryAt?_eq List.mem_cons_self]
    rfl

variable [EquivBEq κ]

/-- Both find the same entry under a key. -/
theorem entry?_eq (represents : cache.Represents queue) (key : κ) :
    Cache.entry? cache key = queue.find? key := by
  obtain ⟨⟨listing, lists⟩, rfl⟩ := represents
  unfold Cache.entry?
  cases found : cache.index[key]? with
  | none => exact (lists.find?_eq_none found).symm
  | some slot =>
    obtain ⟨entry, member, _, sought⟩ := lists.exists_entry found
    rw [sought]
    exact lists.entryAt?_eq member

/-- Working on the value of a key. -/
theorem visit (represents : cache.Represents queue) (key : κ) (action : ν → ν × ρ) :
    Outcome.Matches Represents (cache.visit key action) (queue.visit key action) := by
  obtain ⟨⟨listing, lists⟩, rfl⟩ := represents
  rw [Cache.visit, Queue.visit]
  cases found : cache.index[key]? with
  | none =>
    rw [access_of_none found, lists.find?_eq_none found]
    exact .silent ((lists.withMetrics _).represents rfl) rfl
  | some slot =>
    obtain ⟨entry, member, _, sought⟩ := lists.exists_entry found
    have hit := lists.withMetrics (cache.record .recordHit).metrics
    rw [lists.access_of_some found member, sought]
    exact .silent ((hit.renew member _).represents (hit.queue_renew member _)) rfl

/-- Reading the value of a key. -/
theorem get (represents : cache.Represents queue) (key : κ) :
    Outcome.Matches Represents (cache.get key)
      (queue.visit key fun value => (value, value)) := by
  obtain ⟨⟨listing, lists⟩, rfl⟩ := represents
  rw [Cache.get, Queue.visit]
  cases found : cache.index[key]? with
  | none =>
    rw [access_of_none found, lists.find?_eq_none found]
    exact .silent ((lists.withMetrics _).represents rfl) rfl
  | some slot =>
    obtain ⟨entry, member, _, sought⟩ := lists.exists_entry found
    have hit := lists.withMetrics (cache.record .recordHit).metrics
    rw [lists.access_of_some found member, sought]
    exact .silent ((hit.touch member).represents (hit.queue_touch member)) rfl

/-- A key that is nowhere in the queue is not in the index. -/
theorem getElem?_eq_none (represents : cache.Represents queue) {key : κ}
    (absent : queue.find? key = none) : cache.index[key]? = none := by
  obtain ⟨⟨listing, lists⟩, rfl⟩ := represents
  cases found : cache.index[key]? with
  | none => rfl
  | some slot =>
    obtain ⟨entry, _, _, sought⟩ := lists.exists_entry found
    rw [absent] at sought
    cases sought

variable [LawfulHashable κ]

/-- Both know the same keys. -/
theorem containsKey_eq (represents : cache.Represents queue) (key : κ) :
    cache.containsKey key = (queue.find? key).isSome := by
  obtain ⟨⟨listing, lists⟩, rfl⟩ := represents
  rw [containsKey, Std.HashMap.contains_eq_isSome_getElem?]
  cases found : cache.index[key]? with
  | none => rw [lists.find?_eq_none found]; rfl
  | some slot =>
    obtain ⟨entry, _, _, sought⟩ := lists.exists_entry found
    rw [sought]
    rfl

/-- Taking the first entry. -/
theorem takeFirst (represents : cache.Represents queue) :
    cache.takeFirst.1 = queue.entries.head? ∧ cache.takeFirst.2.Represents queue.dropFirst := by
  obtain ⟨⟨listing, lists⟩, rfl⟩ := represents
  have entries : cache.queue.entries = listing.map Prod.snd := lists.entries_eq
  cases listing with
  | nil =>
    rw [Cache.takeFirst, lists.store.popFirst_nil, Queue.dropFirst, entries]
    refine ⟨rfl, lists.represents ?_⟩
    rw [queue, lists.entries_eq]
    rfl
  | cons cell rest =>
    obtain ⟨slot, entry⟩ := cell
    have rest : (cache.queue.discard entry.key).entries = rest.map Prod.snd := by
      rw [← lists.map_snd_without List.mem_cons_self BEq.rfl, lists.store.covers.without_head]
    have dropped : cache.queue.discard entry.key = cache.queue.dropFirst := by
      rw [Queue.dropFirst, entries, List.map_cons, List.tail_cons, ← rest]
      rfl
    rw [Cache.takeFirst, lists.store.popFirst_cons,
      lists.store.remove_eq List.mem_cons_self, entries]
    exact ⟨rfl, ((lists.erase List.mem_cons_self BEq.rfl).withMetrics _).represents
      ((lists.queue_erase List.mem_cons_self BEq.rfl).trans dropped)⟩

/-- Making room. -/
theorem makeRoom (represents : cache.Represents queue) :
    Outcome.Matches Represents cache.makeRoom queue.makeRoom := by
  obtain ⟨first, left⟩ := represents.takeFirst
  unfold Cache.makeRoom Queue.makeRoom
  rw [represents.size_eq, represents.capacity_eq]
  by_cases full : queue.capacity ≤ queue.entries.length
  · rw [if_pos full, if_pos full]
    cases entries : queue.entries with
    | nil =>
      -- What is full is not empty, as at least one entry fits.
      have positive := represents.capacity_pos
      rw [entries] at full
      exact absurd full (Nat.not_le_of_lt positive)
    | cons entry rest =>
      rw [entries] at first
      rw [← Prod.mk.eta (p := cache.takeFirst), first]
      exact ⟨rfl, left.withMetrics _, rfl⟩
  · rw [if_neg full, if_neg full]
    exact .silent represents rfl

/-- Adding an entry under an absent key. -/
theorem addEntry (represents : cache.Represents queue) {key : κ}
    (absent : queue.find? key = none) (room : queue.entries.length < queue.capacity) (value : ν) :
    (cache.addEntry key value).Represents (queue.join key value) := by
  have unknown := represents.getElem?_eq_none absent
  obtain ⟨⟨listing, lists⟩, rfl⟩ := represents
  have entries : cache.queue.entries = listing.map Prod.snd := lists.entries_eq
  rw [entries, List.length_map] at room
  obtain ⟨slot, added⟩ := lists.addEntry unknown room value
  exact added.represents (lists.queue_addEntry value)

/-- Storing a value. -/
theorem insert (represents : cache.Represents queue) (key : κ) (value : ν) :
    Outcome.Matches Represents (cache.insert key value) (queue.insert key value) := by
  obtain ⟨⟨listing, lists⟩, rfl⟩ := represents
  rw [Cache.insert, Queue.insert]
  cases found : cache.index[key]? with
  | none =>
    have absent := lists.find?_eq_none found
    rw [absent]
    have room := (lists.represents rfl).makeRoom
    refine room.andThen fun after represents => .silent ?_ rfl
    exact represents.addEntry (Queue.find?_makeRoom absent)
      (Queue.length_makeRoom (lists.represents rfl).capacity_pos (lists.represents rfl).length_le)
      value
  | some slot =>
    obtain ⟨entry, member, _, sought⟩ := lists.exists_entry found
    have updated : (cache.record .recordUpdate).Lists listing := lists.withMetrics _
    have renewed := (updated.touch member).entryAt?_eq
      ((Policy.placeCell_perm _ _).mem_iff.mpr List.mem_cons_self)
    have replaced : cache.replace slot key value = .silent (some (.replaced key entry.value))
        (((cache.record .recordUpdate).touch slot).setValue slot value) := by
      unfold replace
      simp only [renewed]
      rfl
    rw [sought]
    change Outcome.Matches Represents (cache.replace slot key value) _
    rw [replaced]
    exact .silent ((updated.renew member value).represents (updated.queue_renew member value)) rfl

/-- Storing several pairs. -/
theorem extend (represents : cache.Represents queue) (pairs : List (κ × ν)) :
    Outcome.Matches Represents (cache.extend pairs) (queue.extend pairs) := by
  induction pairs generalizing cache queue with
  | nil => exact .silent represents rfl
  | cons pair rest ih =>
    exact ((represents.insert pair.1 pair.2).map _).andThen fun after represents => ih represents

/-- Removing a key. -/
theorem removeEntry (represents : cache.Represents queue) (key : κ) :
    Outcome.Matches Represents (cache.removeEntry key) (queue.removeEntry key) := by
  obtain ⟨⟨listing, lists⟩, rfl⟩ := represents
  rw [Cache.removeEntry, Queue.removeEntry]
  cases found : cache.index[key]? with
  | none =>
    have absent := lists.find?_eq_none found
    rw [absent]
    exact .silent (lists.represents (Queue.discard_of_find?_eq_none absent).symm) rfl
  | some slot =>
    obtain ⟨entry, member, same, sought⟩ := lists.exists_entry found
    have gone := (lists.store.remove member).1
    have erased := lists.erase member same
    have discarded := lists.queue_erase member same
    rw [sought]
    dsimp only
    generalize policy.remove cache.store slot = removed at gone erased discarded ⊢
    obtain ⟨_, store⟩ := removed
    obtain rfl := gone
    exact .silent ((erased.withMetrics _).represents discarded) rfl

/-- Removing the first entry on request. -/
theorem pop (represents : cache.Represents queue) :
    Outcome.Matches Represents cache.pop queue.pop := by
  obtain ⟨first, left⟩ := represents.takeFirst
  rw [Cache.pop, Queue.pop, ← first]
  generalize cache.takeFirst = taken at left ⊢
  obtain ⟨entry, after⟩ := taken
  cases entry with
  | none => exact .silent left rfl
  | some entry => exact .silent (left.withMetrics _) rfl

/-- Removing every entry. -/
theorem clear (represents : cache.Represents queue) :
    Outcome.Matches Represents cache.clear queue.clear := by
  have cleared := policy.lists_clearStore cache.store
  refine ⟨rfl, ⟨⟨[], cleared, .nil Std.HashMap.isEmpty_empty, Nat.zero_le _⟩, ?_⟩, ?_⟩
  · rw [← represents.queue_eq]
    change Queue.mk _ (policy.entries (policy.clearStore cache.store))
      (policy.fresh (policy.clearStore cache.store)) = _
    rw [cleared.entries_eq, policy.fresh_clearStore]
    rfl
  · change [Event.clearing policy cache.size] = _
    rw [represents.size_eq]
    rfl

variable [BEq ν]

/-- Every call. -/
theorem perform (represents : cache.Represents queue) (call : Call κ ν ε ρ) :
    Outcome.Matches Represents (cache.perform call) (queue.perform call) := by
  cases call with
  | get key => exact (represents.get key).map Reply.value
  | getMut key write => exact (represents.visit key _).map Reply.value
  | getWith key result =>
    rw [Queue.perform, Queue.visit_reading]
    exact (represents.get key).map fun value => Reply.result (value.map result)
  | getMutWith key closure => exact (represents.visit key _).map Reply.result
  | peek key => exact .silent represents (by rw [peek, represents.entry?_eq])
  | put key value => exact ((represents.insert key value).map _).map Reply.value
  | push key value =>
    exact (represents.insert key value).map fun displaced =>
      Reply.pair (displaced.map Displaced.pair)
  | extend pairs => exact (represents.extend pairs).map fun _ => Reply.done
  | remove key =>
    exact (represents.removeEntry key).map fun pair => Reply.value (pair.map Prod.snd)
  | pop => exact represents.pop.map Reply.pair
  | clear => exact represents.clear.map fun _ => Reply.done
  | frequency key => exact .silent represents (by rw [frequency?, represents.entry?_eq])
  | containsKey key => exact .silent represents (by rw [represents.containsKey_eq])
  | containsValue value =>
    have same : cache.containsValue value =
        queue.entries.any fun entry => entry.value == value := by
      rw [containsValue, toList, represents.entries_eq, List.any_map]
      rfl
    exact .silent represents (by rw [same])
  | isEmpty =>
    have same : cache.isEmpty = queue.entries.isEmpty := by
      rw [isEmpty, Std.HashMap.isEmpty_eq_size_eq_zero, ← size, represents.size_eq]
      cases queue.entries <;> rfl
    exact .silent represents (by rw [same])
  | size => exact .silent represents (by rw [represents.size_eq])
  | capacity => exact .silent represents (by rw [represents.capacity_eq])
  | candidate => exact .silent represents (by rw [represents.candidate?_eq])
  | toList => exact .silent represents (by rw [toList, represents.entries_eq])

/-- Every run. -/
theorem run (represents : cache.Represents queue) (calls : List (Call κ ν ε ρ)) :
    Outcome.Matches Represents (cache.run calls) (queue.run calls) := by
  induction calls generalizing cache queue with
  | nil => exact .silent represents rfl
  | cons call rest ih =>
    exact (represents.perform call).andThen fun after represents => (ih represents).map _

/-- Requests leave what the calls among them leave. -/
theorem serveAll (represents : cache.Represents queue) (requests : List (Request κ ν ε ρ)) :
    (cache.serveAll requests).state.Represents
      (queue.run (requests.filterMap Request.call?)).state := by
  rw [(cache.serveAll_frame requests).1]
  exact (represents.run _).state

end Represents

end EvictionCache.Cache
