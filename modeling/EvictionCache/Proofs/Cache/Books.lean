import EvictionCache.Proofs.Cache.Change
import EvictionCache.Proofs.Cache.Turns

/-!
# The books of a cache

`Cache.Books` says that the counters, the number of entries and the log went on by what a tally
says, and that the tally accounts for every entry that came or went. Each call on a cache in
order keeps the books with the tally of its turn, and books that are continued by books are
books, so turns that lead from one cache to another keep them with all their tallies.
-/
namespace EvictionCache

namespace Cache

variable {policy : Policy} {κ ν ε ρ : Type} [BEq κ] [Hashable κ]

/-- Counters, contents and log went on by a tally. -/
structure Books (cache after : Cache policy κ ν) (events : List Event) (tally : CoreMetrics) :
    Prop where
  /-- The counters were increased by the tally. -/
  core : after.metrics.core = cache.metrics.core.merge tally
  /-- Entries come by insertions, and go by evictions, by removals and by clearing. -/
  size : after.size + tally.evictions + tally.removals + clearedIn events =
    cache.size + tally.insertions
  /-- Every eviction was logged, and nothing else was logged as an eviction. -/
  evictions : events.count (.evicted policy) = tally.evictions

/-- A tally of lookups only. -/
def lookups (requests hits : Nat) : CoreMetrics := ⟨requests, hits, 0, 0, 0, 0⟩

namespace Books

variable {cache between after : Cache policy κ ν} {events more : List Event}
  {tally other : CoreMetrics}

/-- Nothing happened. -/
theorem refl (cache : Cache policy κ ν) : Books cache cache [] .fresh := ⟨rfl, rfl, rfl⟩

/-- Books are continued by books. -/
theorem trans (books : Books cache between events tally)
    (later : Books between after more other) :
    Books cache after (events ++ more) (tally.merge other) where
  core := by rw [later.core, books.core, CoreMetrics.merge_assoc]
  size := by
    have first := books.size
    have second := later.size
    simp only [CoreMetrics.merge, clearedIn_append]
    omega
  evictions := by rw [List.count_append, books.evictions, later.evictions]; rfl

end Books

section Sizes

variable {cache : Cache policy κ ν} {listing : Listing (Entry κ ν policy.Metadata)}
  {slot : SlotId} {entry : Entry κ ν policy.Metadata} {key : κ}

/-- A full cache in order makes room by evicting its first entry. -/
theorem Lists.makeRoom_of_full (lists : cache.Lists listing) (full : cache.capacity ≤ cache.size) :
    ∃ slot entry, policy.first? cache.store = some slot ∧ cache.entryAt? slot = some entry ∧
      cache.makeRoom = ⟨some entry, (cache.discard slot entry.key).record .recordEviction,
        [.evicted policy]⟩ := by
  rw [makeRoom, if_pos full]
  rcases lists.takeFirst_cases with empty | ⟨slot, entry, first, held, taken⟩
  · -- What is full is not empty, as at least one entry fits.
    cases listing with
    | nil =>
      rw [lists.size_eq] at full
      exact absurd full (Nat.not_le_of_lt cache.config.capacity.positive)
    | cons cell rest =>
      rw [takeFirst, lists.store.popFirst_cons, lists.store.remove_eq List.mem_cons_self] at empty
      cases empty
  · exact ⟨slot, entry, first, held, by rw [taken]⟩

variable [EquivBEq κ] [LawfulHashable κ]

/-- What the index finds is contained. -/
theorem containsKey_eq_isSome (cache : Cache policy κ ν) (key : κ) :
    cache.containsKey key = (cache.index[key]?).isSome :=
  Std.HashMap.contains_eq_isSome_getElem?

/-- Storing an entry under an absent key makes a cache larger by one. -/
theorem size_addEntry (absent : cache.index[key]? = none) (value : ν) :
    (cache.addEntry key value).size = cache.size + 1 := by
  have outside : key ∉ cache.index := by
    rw [Std.HashMap.mem_iff_isSome_getElem?, absent]
    exact Bool.false_ne_true
  exact Std.HashMap.size_insert.trans (if_neg outside)

/-- Taking an entry out makes a cache smaller by one. -/
theorem Lists.size_discard (lists : cache.Lists listing)
    (held : cache.entryAt? slot = some entry) (same : (entry.key == key) = true) :
    (cache.discard slot key).size + 1 = cache.size := by
  have member := lists.mem_iff.mpr held
  have split := (lists.store.covers.perm_cons_without member).length_eq
  rw [List.length_cons, ← lists.size_eq] at split
  rw [split]
  exact congrArg (· + 1) (lists.erase member same).size_eq

end Sizes

section Calls

variable {cache : Cache policy κ ν} {queue : Queue policy κ ν}

/-- Clearing counts nothing but logs how many entries went. -/
theorem books_clear (cache : Cache policy κ ν) :
    Books cache cache.clear.state cache.clear.events .fresh :=
  ⟨rfl, by change 0 + 0 + 0 + (cache.size + 0) = cache.size + 0; omega, rfl⟩

variable [EquivBEq κ] [LawfulHashable κ]

/-- An access counts a request, and a hit if the key is present. -/
theorem books_access (cache : Cache policy κ ν) (key : κ) :
    Books cache (cache.access key).2 [] (lookups 1 (cache.containsKey key).toNat) := by
  rw [access, containsKey_eq_isSome]
  cases cache.index[key]? with
  | none => exact ⟨rfl, rfl, rfl⟩
  | some slot => exact ⟨rfl, rfl, rfl⟩

/-- Working on a value counts as the access to it. -/
theorem books_visit (cache : Cache policy κ ν) (key : κ) (action : ν → ν × ρ) :
    Books cache (cache.visit key action).state (cache.visit key action).events
      (lookups 1 (cache.containsKey key).toNat) := by
  have accessed := cache.books_access key
  rw [visit]
  split
  · next missed =>
    rw [missed] at accessed
    exact accessed
  · next hit =>
    rw [hit] at accessed
    exact ⟨accessed.core, accessed.size, accessed.evictions⟩

namespace Represents

/-- Storing a value counts an update if the key is present. If not, it counts an insertion, and
before that an eviction if the cache is full. -/
theorem books_insert (represents : cache.Represents queue) (key : κ) (value : ν) :
    Books cache (cache.insert key value).state (cache.insert key value).events
      ⟨0, 0, (!cache.containsKey key).toNat, (cache.containsKey key).toNat,
        ((cache.insert key value).answer.any Displaced.madeRoom).toNat, 0⟩ ∧
    ((cache.insert key value).answer.any Displaced.madeRoom = true ↔
      cache.containsKey key = false ∧ cache.capacity ≤ cache.size) := by
  obtain ⟨listing, lists⟩ := represents.listed
  rw [Cache.insert, containsKey_eq_isSome]
  cases found : cache.index[key]? with
  | none =>
    have missing : queue.find? key = none := by
      rw [← represents.queue_eq]
      exact lists.find?_eq_none found
    have absent : cache.makeRoom.state.index[key]? = none :=
      represents.makeRoom.state.getElem?_eq_none (Queue.find?_makeRoom missing)
    have added := size_addEntry absent value
    by_cases full : cache.capacity ≤ cache.size
    · obtain ⟨slot, entry, _, held, room⟩ := lists.makeRoom_of_full full
      have smaller := lists.size_discard held BEq.rfl
      rw [room] at added ⊢
      refine ⟨⟨rfl, ?_, List.count_singleton_self⟩, iff_of_true rfl ⟨rfl, full⟩⟩
      refine (congrArg (· + 1) added).trans ?_
      exact congrArg (· + 1) smaller
    · have room : cache.makeRoom = .silent none cache := if_neg full
      rw [room] at added ⊢
      exact ⟨⟨rfl, added, rfl⟩, iff_of_false Bool.false_ne_true fun both => full both.2⟩
  | some slot =>
    have present : ¬ ((some slot).isSome = false ∧ cache.capacity ≤ cache.size) :=
      fun both => Bool.false_ne_true both.1.symm
    dsimp only [replace]
    split
    · exact ⟨⟨rfl, rfl, rfl⟩, iff_of_false Bool.false_ne_true present⟩
    · exact ⟨⟨rfl, rfl, rfl⟩, iff_of_false Bool.false_ne_true present⟩

/-- Removing a key counts a removal if it hands out an entry. -/
theorem books_removeEntry (represents : cache.Represents queue) (key : κ) :
    Books cache (cache.removeEntry key).state (cache.removeEntry key).events
      ⟨0, 0, 0, 0, 0, (cache.removeEntry key).answer.isSome.toNat⟩ := by
  obtain ⟨listing, lists⟩ := represents.listed
  rw [Cache.removeEntry]
  cases found : cache.index[key]? with
  | none => exact .refl cache
  | some slot =>
    obtain ⟨entry, member, same, _⟩ := lists.exists_entry found
    have smaller := lists.size_discard (lists.entryAt?_eq member) same
    dsimp only
    rw [lists.store.remove_eq member]
    exact ⟨rfl, smaller, rfl⟩

/-- Removing the first entry on request counts a removal if there is one. -/
theorem books_pop (represents : cache.Represents queue) :
    Books cache cache.pop.state cache.pop.events
      ⟨0, 0, 0, 0, 0, cache.pop.answer.isSome.toNat⟩ := by
  obtain ⟨listing, lists⟩ := represents.listed
  rw [Cache.pop]
  rcases lists.takeFirst_cases with empty | ⟨slot, entry, _, held, taken⟩
  · rw [empty]
    exact .refl cache
  · rw [taken]
    exact ⟨rfl, lists.size_discard held BEq.rfl, rfl⟩

variable [BEq ν]

/-- Every call keeps the books with the tally of its turn. -/
theorem books_perform (represents : cache.Represents queue) {call : Call κ ν ε ρ}
    (single : call.Single) :
    Books cache (cache.perform call).state (cache.perform call).events
      (Turn.tally ⟨cache, call⟩) := by
  cases call with
  | get key | getWith key _ => exact cache.books_access key
  | getMut key _ | getMutWith key _ => exact cache.books_visit key _
  | put key value | push key value => exact (represents.books_insert key value).1
  | extend => exact absurd single id
  | remove key =>
    have removed := represents.books_removeEntry key
    rw [← Option.isSome_map (f := Prod.snd)] at removed
    exact removed
  | pop => exact represents.books_pop
  | clear => exact books_clear cache
  | peek | frequency | containsKey | containsValue | isEmpty | size | capacity | candidate
  | toList => exact .refl cache

/-- A lookup hands out something exactly if its key is present. -/
theorem found_perform (represents : cache.Represents queue) {call : Call κ ν ε ρ}
    (looksUp : call.looksUp = true) :
    (cache.perform call).answer.found = Turn.finds ⟨cache, call⟩ := by
  have visited {α : Type} (key : κ) (action : ν → ν × α) :
      (queue.visit key action).answer.isSome = cache.containsKey key := by
    rw [represents.containsKey_eq, Queue.visit]
    cases queue.find? key <;> rfl
  rw [(represents.perform call).answer]
  cases call with
  | get key | getMut key _ | getWith key _ | getMutWith key _ => exact visited key _
  | _ => cases looksUp

end Represents

end Calls

end Cache

namespace Turn

variable {policy : Policy} {κ ν ε ρ : Type} [BEq κ] [Hashable κ] [BEq ν]

/-- A turn that does what its call says and counts it. -/
structure Kept (turn : Turn policy κ ν ε ρ) : Prop where
  /-- The books are kept with the tally of the turn. -/
  books : Cache.Books turn.cache turn.outcome.state turn.outcome.events turn.tally
  /-- An entry leaves for another exactly when an absent key is stored in a full cache. -/
  evicts_iff : turn.evicts = true ↔ turn.inserts = true ∧ turn.cache.capacity ≤ turn.cache.size
  /-- A lookup hands out something exactly if its key is present. -/
  found : turn.call.looksUp = true → turn.outcome.answer.found = turn.finds

variable [EquivBEq κ] [LawfulHashable κ] {cache last : Cache policy κ ν}
  {queue : Queue policy κ ν}

/-- A turn on a cache in order is kept. -/
theorem kept (represents : cache.Represents queue) {call : Call κ ν ε ρ} (single : call.Single) :
    Kept ⟨cache, call⟩ where
  books := represents.books_perform single
  evicts_iff := by
    cases call with
    | put key value | push key value =>
      refine (represents.books_insert key value).2.trans (and_congr_left fun _ => ?_)
      exact .of_eq (Bool.not_eq_true' _).symm
    | _ => exact iff_of_false Bool.false_ne_true fun both => Bool.false_ne_true both.1
  found := represents.found_perform

/-- Turns that lead from a cache in order to another keep the books with all their tallies, and
each of them is kept. -/
theorem Lead.books {turns : List (Turn policy κ ν ε ρ)} (lead : Lead cache turns last)
    (represents : cache.Represents queue) (single : ∀ turn ∈ turns, turn.call.Single) :
    Cache.Books cache last (turns.flatMap fun turn => turn.outcome.events) (tallyAll turns) ∧
      ∀ turn ∈ turns, turn.Kept := by
  induction lead generalizing queue with
  | nil cache => exact ⟨.refl cache, fun turn member => nomatch member⟩
  | cons turn later ih =>
    have first := kept represents (single turn List.mem_cons_self)
    obtain ⟨books, others⟩ := ih (represents.perform turn.call).state fun other member =>
      single other (List.mem_cons_of_mem _ member)
    exact ⟨first.books.trans books, List.forall_mem_cons.mpr ⟨first, others⟩⟩

/-- What holds of turns and the cache that they led to, and goes on to hold with every turn of a
call that does one thing, still holds after more such turns. -/
theorem Lead.induction {turns : List (Turn policy κ ν ε ρ)} (lead : Lead cache turns last)
    (represents : cache.Represents queue) (single : ∀ turn ∈ turns, turn.call.Single)
    (holds : List (Turn policy κ ν ε ρ) → Cache policy κ ν → Prop)
    (goesOn : ∀ {past cache queue call}, holds past cache → cache.Represents queue →
      call.Single → holds (past ++ [⟨cache, call⟩]) (cache.perform call).state)
    {past : List (Turn policy κ ν ε ρ)} (now : holds past cache) : holds (past ++ turns) last := by
  induction lead generalizing queue past with
  | nil cache =>
    rw [List.append_nil]
    exact now
  | cons turn later ih =>
    obtain ⟨one, others⟩ := List.forall_mem_cons.mp single
    have after := ih (represents.perform turn.call).state others (goesOn now represents one)
    rwa [List.append_assoc] at after

end Turn

/-- What holds of a new cache, and goes on to hold with every turn of a call that does one thing,
holds after every run. Pairs that are stored together count as stored one by one. -/
theorem Cache.run_induction {policy : Policy} {κ ν ε ρ : Type} [BEq κ] [Hashable κ] [EquivBEq κ]
    [LawfulHashable κ] [BEq ν] (holds : List (Turn policy κ ν ε ρ) → Cache policy κ ν → Prop)
    (config : CacheConfig) (new : holds [] (.ofConfig config))
    (goesOn : ∀ {past cache queue call}, holds past cache → cache.Represents queue →
      call.Single → holds (past ++ [⟨cache, call⟩]) (cache.perform call).state)
    (calls : List (Call κ ν ε ρ)) :
    let start : Cache policy κ ν := .ofConfig config
    holds (start.turns (calls.flatMap Call.singly)) (start.run calls).state := by
  intro start
  obtain ⟨lead, single⟩ := start.turns_singly_lead calls
  exact lead.induction (represents_ofConfig config) single holds goesOn new

end EvictionCache
