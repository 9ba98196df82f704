import EvictionCache.Proofs.Cache.Iteration
import EvictionCache.Proofs.Cache.Scan
import EvictionCache.Proofs.Queue.Spelling
import EvictionCache.Workload.Key
import Mathlib

/-!
# The spelling of stored keys

Keys may be equal without being the same. What a cache hands out as the key of an entry is the
key under which the entry was stored, exactly as it was passed in: the key of the last turn that
stored an absent key equal to it (`Turn.spelling?`). All other calls may use other spellings;
they find, change, replace or remove that one entry and never its key.
-/
namespace EvictionCache

variable {policy : Policy} {κ ν ε ρ : Type} [BEq κ] [Hashable κ]

namespace Turn

/-- The key that the turn stores, if it was absent, as it was passed in. -/
def inserted? (turn : Turn policy κ ν ε ρ) : Option κ :=
  if turn.inserts then turn.call.key? else none

/-- The spelling under which a key was last stored while it was absent. -/
def spelling? (turns : List (Turn policy κ ν ε ρ)) (key : κ) : Option κ :=
  ((turns.filterMap inserted?).filter (· == key)).getLast?

/-- A turn that stores nothing new changes no spelling. -/
theorem spelling?_concat_of_none {turn : Turn policy κ ν ε ρ} (nothing : turn.inserted? = none)
    (past : List (Turn policy κ ν ε ρ)) (key : κ) :
    spelling? (past ++ [turn]) key = spelling? past key := by
  have stored : (past ++ [turn]).filterMap inserted? = past.filterMap inserted? := by
    rw [List.filterMap_append, List.filterMap_cons_none nothing, List.filterMap_nil,
      List.append_nil]
  rw [spelling?, spelling?, stored]

/-- A turn that stores an absent key is the last to spell the keys equal to it, and spells no
others. -/
theorem spelling?_concat_of_some {turn : Turn policy κ ν ε ρ} {new : κ}
    (stores : turn.inserted? = some new) (past : List (Turn policy κ ν ε ρ)) (key : κ) :
    spelling? (past ++ [turn]) key = if new == key then some new else spelling? past key := by
  have stored : (past ++ [turn]).filterMap inserted? = past.filterMap inserted? ++ [new] := by
    rw [List.filterMap_append, List.filterMap_cons_some stores, List.filterMap_nil]
  have last : [new].filter (· == key) = if new == key then [new] else [] := by
    rw [List.filter_cons, List.filter_nil]
  rw [spelling?, spelling?, stored, List.filter_append, last]
  split
  · exact List.getLast?_concat
  · rw [List.append_nil]

end Turn

namespace Cache

/-- The pairs of a cache under other keys. -/
def others (cache : Cache policy κ ν) (key : κ) : List (κ × ν) :=
  cache.toList.filter fun pair => !(pair.1 == key)

/-- A cache that spells its keys as the turns that it went through stored them. -/
structure Spelled (cache : Cache policy κ ν) (turns : List (Turn policy κ ν ε ρ)) : Prop where
  /-- No two pairs have equal keys. -/
  apart : cache.toList.Pairwise fun one other => (one.1 == other.1) = false
  /-- Every pair is listed under the key that stored it. -/
  listed : ∀ pair ∈ cache.toList, Turn.spelling? turns pair.1 = some pair.1
  /-- So is the candidate. -/
  candidate : ∀ pair, cache.candidate? = some pair →
    Turn.spelling? turns pair.1 = some pair.1 ∧ pair ∈ cache.toList
  /-- So is a pair that is popped; no spelling of its key is present after that. -/
  popped : ∀ pair, cache.pop.answer = some pair →
    Turn.spelling? turns pair.1 = some pair.1 ∧ cache.toList = pair :: cache.pop.state.toList ∧
      ∀ key, (pair.1 == key) = true → cache.pop.state.containsKey key = false
  /-- So is a pair that makes room for an absent key; no spelling of its key is present after
  that. -/
  evicted : ∀ key value, cache.containsKey key = false → ∀ pair,
    (cache.push key value).answer = some pair →
      Turn.spelling? turns pair.1 = some pair.1 ∧ pair ∈ cache.toList ∧
        ∀ other, (pair.1 == other) = true → (cache.push key value).state.containsKey other = false
  /-- An absent key is listed as it was passed in. All pairs stay but the one that makes room. -/
  stored : ∀ key value, cache.containsKey key = false →
    ((cache.push key value).answer.toList ++ (cache.push key value).state.toList).Perm
      ((key, value) :: cache.toList)
  /-- Storing a key that is present hands out the key that was passed in with the old value. The
  pair keeps its own spelling and gets the new value, and all others stay. -/
  replaced : ∀ pair ∈ cache.toList, ∀ key value, (pair.1 == key) = true →
    (cache.push key value).answer = some (key, pair.2) ∧
      (cache.put key value).answer = some pair.2 ∧
      cache.toList.Perm (pair :: cache.others key) ∧
      (cache.push key value).state.toList.Perm ((pair.1, value) :: cache.others key) ∧
      (cache.put key value).state.toList.Perm ((pair.1, value) :: cache.others key)
  /-- Removing a key under any spelling hands out the value of its pair and takes out that pair
  alone. -/
  removed : ∀ pair ∈ cache.toList, ∀ key, (pair.1 == key) = true →
    (cache.remove key).answer = some pair.2 ∧
      (cache.remove key).state.toList = cache.others key ∧
      (cache.remove key).state.containsKey key = false
  /-- Stored again after that, the key is listed in its new spelling, and nothing makes room. -/
  restored : ∀ pair ∈ cache.toList, ∀ key other value, (pair.1 == key) = true →
    (key == other) = true →
      ((cache.remove key).state.push other value).answer = none ∧
        ((cache.remove key).state.push other value).state.toList.Perm
          ((other, value) :: cache.others key)

namespace Represents

variable {cache : Cache policy κ ν} {queue : Queue policy κ ν}

/-- The pairs under other keys are what is left when the key is discarded. -/
theorem others_eq (represents : cache.Represents queue) (key : κ) :
    cache.others key = (queue.discard key).entries.map Entry.pair := by
  rw [others, represents.toList_eq, Queue.discard, List.filter_map]
  rfl

variable [EquivBEq κ]

/-- The key of the first entry is absent under every spelling once that entry has left. -/
theorem find?_dropFirst_eq_none (represents : cache.Represents queue)
    {entry : Entry κ ν policy.Metadata} (first : queue.entries.head? = some entry) {key : κ}
    (same : (entry.key == key) = true) : queue.dropFirst.find? key = none := by
  obtain ⟨rest, entries⟩ := List.head?_eq_some_iff.mp first
  have apart := represents.apart
  rw [entries] at apart
  refine List.find?_eq_none.mpr fun other member spelt => ?_
  rw [Queue.dropFirst, entries] at member
  have distinct : (entry.key == other.key) = false := List.rel_of_pairwise_cons apart member
  rw [PartialEquivBEq.trans same (BEq.symm spelt)] at distinct
  cases distinct

/-- A pair of a cache in order is found under every spelling of its key. -/
theorem exists_entry_of_mem (represents : cache.Represents queue) {pair : κ × ν}
    (member : pair ∈ cache.toList) {key : κ} (same : (pair.1 == key) = true) :
    ∃ entry, queue.find? key = some entry ∧ entry.pair = pair := by
  rw [represents.toList_eq] at member
  obtain ⟨entry, listed, rfl⟩ := List.mem_map.mp member
  exact ⟨entry, represents.finds entry listed key same, rfl⟩

variable [LawfulHashable κ]

/-- Popping hands out the first pair, which is absent then under every spelling. -/
theorem pop_eq (represents : cache.Represents queue) {pair : κ × ν}
    (popped : cache.pop.answer = some pair) :
    cache.toList = pair :: cache.pop.state.toList ∧
      ∀ key, (pair.1 == key) = true → cache.pop.state.containsKey key = false := by
  have pop := represents.pop
  have first : queue.entries.head?.map Entry.pair = some pair := pop.answer.symm.trans popped
  obtain ⟨entry, head, rfl⟩ := Option.map_eq_some_iff.mp first
  obtain ⟨rest, entries⟩ := List.head?_eq_some_iff.mp head
  refine ⟨?_, fun key same => ?_⟩
  · rw [represents.toList_eq, pop.state.toList_eq]
    change _ = entry.pair :: queue.entries.tail.map Entry.pair
    rw [entries]
    rfl
  · rw [pop.state.containsKey_eq]
    have gone : queue.dropFirst.find? key = none := represents.find?_dropFirst_eq_none head same
    exact congrArg Option.isSome gone

omit [LawfulHashable κ] in
/-- What made room for an absent key is not found under any spelling once that key is stored. -/
theorem find?_join_eq_none (represents : cache.Represents queue) {key : κ} (value : ν)
    (missing : queue.find? key = none) {entry : Entry κ ν policy.Metadata}
    (first : queue.makeRoom.answer = some entry) {other : κ} (same : (entry.key == other) = true) :
    (queue.makeRoom.state.join key value).find? other = none := by
  have split := queue.makeRoom_append
  rw [first] at split
  have apart := represents.apart
  rw [← split] at apart
  have member : entry ∈ queue.entries := split ▸ List.mem_cons_self
  refine List.find?_eq_none.mpr fun kept listed spelt => ?_
  have alike : (entry.key == kept.key) = true := PartialEquivBEq.trans same (BEq.symm spelt)
  rcases List.mem_cons.mp ((policy.perm_place _ _).mem_iff.mp listed) with rfl | listed
  · -- The key that was passed in was absent, and that of the entry was not.
    exact List.find?_eq_none.mp missing entry member alike
  · have distinct : (entry.key == kept.key) = false := List.rel_of_pairwise_cons apart listed
    rw [distinct] at alike
    cases alike

/-- Storing an absent key adds its pair and takes out the one that made room, if any, which is
absent then under every spelling. -/
theorem push_of_absent (represents : cache.Represents queue) {key : κ} (value : ν)
    (absent : cache.containsKey key = false) :
    ((cache.push key value).answer.toList ++ (cache.push key value).state.toList).Perm
        ((key, value) :: cache.toList) ∧
      ∀ pair, (cache.push key value).answer = some pair → pair ∈ cache.toList ∧
        ∀ other, (pair.1 == other) = true →
          (cache.push key value).state.containsKey other = false := by
  have missing := represents.find?_eq_none absent
  have stored := represents.insert key value
  have inserted : queue.insert key value =
      queue.makeRoom.andThen fun evicted queue =>
        .silent (evicted.map fun entry => .evicted entry.key entry.value)
          (queue.join key value) := by
    rw [Queue.insert, missing]
  rw [inserted] at stored
  have answer : (cache.push key value).answer = queue.makeRoom.answer.map Entry.pair := by
    refine (congrArg (Option.map Displaced.pair) stored.answer).trans ?_
    exact Option.map_map ..
  have after : (cache.push key value).state.Represents (queue.makeRoom.state.join key value) :=
    stored.state
  have split := queue.makeRoom_append
  have placed : ((queue.makeRoom.state.join key value).entries.map Entry.pair).Perm
      ((key, value) :: queue.makeRoom.state.entries.map Entry.pair) :=
    (policy.perm_place ⟨key, value, queue.makeRoom.state.fresh⟩ _).map Entry.pair
  refine ⟨?_, fun pair evicted => ?_⟩
  · have whole := congrArg (List.map Entry.pair) split
    rw [List.map_append] at whole
    rw [answer, after.toList_eq, represents.toList_eq, ← whole, ← Option.toList_map]
    exact (placed.append_left _).trans List.perm_middle
  · rw [answer] at evicted
    obtain ⟨entry, first, rfl⟩ := Option.map_eq_some_iff.mp evicted
    rw [first] at split
    have member : entry ∈ queue.entries := split ▸ List.mem_cons_self
    refine ⟨represents.toList_eq ▸ List.mem_map_of_mem member, fun other same => ?_⟩
    rw [after.containsKey_eq]
    exact congrArg Option.isSome
      (represents.find?_join_eq_none value missing first same)

/-- Storing a present key gives its pair the new value and leaves all others. -/
theorem push_of_present (represents : cache.Represents queue) {pair : κ × ν}
    (member : pair ∈ cache.toList) {key : κ} (value : ν) (same : (pair.1 == key) = true) :
    (cache.insert key value).answer = some (.replaced key pair.2) ∧
      cache.toList.Perm (pair :: cache.others key) ∧
      (cache.insert key value).state.toList.Perm ((pair.1, value) :: cache.others key) := by
  obtain ⟨entry, found, rfl⟩ := represents.exists_entry_of_mem member same
  have stored := represents.insert key value
  have inserted : queue.insert key value =
      .silent (some (.replaced key entry.value)) (queue.renew entry value) := by
    rw [Queue.insert, found]
  rw [inserted] at stored
  refine ⟨stored.answer, ?_, ?_⟩
  · rw [represents.toList_eq, represents.others_eq]
    exact (Queue.perm_discard represents.finds represents.nodup found).map Entry.pair
  · rw [stored.state.toList_eq, represents.others_eq, ← queue.discard_congr same]
    exact (policy.perm_place _ _).map Entry.pair

/-- Removing a present key takes out its pair and leaves all others. -/
theorem remove_of_present (represents : cache.Represents queue) {pair : κ × ν}
    (member : pair ∈ cache.toList) {key : κ} (same : (pair.1 == key) = true) :
    (cache.remove key).answer = some pair.2 ∧
      (cache.remove key).state.toList = cache.others key ∧
      (cache.remove key).state.containsKey key = false := by
  obtain ⟨entry, found, rfl⟩ := represents.exists_entry_of_mem member same
  have removed := represents.removeEntry key
  have gone : (queue.discard key).find? key = none := by
    refine List.find?_eq_none.mpr fun other listed spelt => ?_
    have kept := List.of_mem_filter listed
    rw [spelt] at kept
    cases kept
  refine ⟨?_, ?_, ?_⟩
  · refine (congrArg (Option.map Prod.snd) removed.answer).trans ?_
    exact congrArg (Option.map _) (congrArg (Option.map _) found)
  · rw [represents.others_eq]
    exact removed.state.toList_eq
  · exact (removed.state.containsKey_eq key).trans (congrArg Option.isSome gone)

/-- A key that was removed has room when it is stored again, in whatever spelling. -/
theorem push_of_removed (represents : cache.Represents queue) {pair : κ × ν}
    (member : pair ∈ cache.toList) {key other : κ} (value : ν) (same : (pair.1 == key) = true)
    (spelt : (key == other) = true) :
    ((cache.remove key).state.push other value).answer = none ∧
      ((cache.remove key).state.push other value).state.toList.Perm
        ((other, value) :: cache.others key) := by
  obtain ⟨entry, found, rfl⟩ := represents.exists_entry_of_mem member same
  obtain ⟨_, left, gone⟩ := represents.remove_of_present member same
  have removed : (cache.remove key).state.Represents (queue.discard key) :=
    (represents.removeEntry key).state
  have absent : (cache.remove key).state.containsKey other = false := by
    rw [removed.containsKey_eq, ← Queue.find?_congr _ spelt, ← removed.containsKey_eq]
    exact gone
  have room : ¬ (queue.discard key).capacity ≤ (queue.discard key).entries.length := by
    have bounded := represents.length_le
    have fewer := (Queue.perm_discard represents.finds represents.nodup found).length_eq
    rw [List.length_cons] at fewer
    have same : (queue.discard key).capacity = queue.capacity := rfl
    omega
  have answer : ((cache.remove key).state.push other value).answer = none := by
    have stored := (removed.insert other value).answer
    rw [Queue.insert_of_room (removed.find?_eq_none absent) room] at stored
    exact congrArg (Option.map Displaced.pair) stored
  have added := (removed.push_of_absent value absent).1
  rw [answer, left] at added
  exact ⟨answer, added⟩

/-- A cache in order whose entries are all spelled as they were stored. -/
theorem spelled (represents : cache.Represents queue) {turns : List (Turn policy κ ν ε ρ)}
    (spelt : ∀ key, queue.Spells key → Turn.spelling? turns key = some key) :
    cache.Spelled turns := by
  have listed : ∀ pair ∈ cache.toList, Turn.spelling? turns pair.1 = some pair.1 := by
    intro pair member
    rw [represents.toList_eq] at member
    obtain ⟨entry, present, rfl⟩ := List.mem_map.mp member
    exact spelt entry.key ⟨entry, present, rfl⟩
  refine {
    apart := ?_
    listed := listed
    candidate := fun pair first => ?_
    popped := fun pair popped => ?_
    evicted := fun key value absent pair evicted => ?_
    stored := fun key value absent => (represents.push_of_absent value absent).1
    replaced := fun pair member key value same => ?_
    removed := fun pair member key same => represents.remove_of_present member same
    restored := fun pair member key other value => represents.push_of_removed member value }
  · rw [represents.toList_eq]
    exact List.pairwise_map.mpr represents.apart
  · have member : pair ∈ cache.toList := by
      rw [represents.candidate?_eq, ← List.head?_map, ← represents.toList_eq] at first
      exact List.mem_of_mem_head? first
    exact ⟨listed pair member, member⟩
  · obtain ⟨split, gone⟩ := represents.pop_eq popped
    exact ⟨listed pair (split ▸ List.mem_cons_self), split, gone⟩
  · obtain ⟨member, gone⟩ := (represents.push_of_absent value absent).2 pair evicted
    exact ⟨listed pair member, member, gone⟩
  · obtain ⟨answer, whole, after⟩ := represents.push_of_present member value same
    have pushed : (cache.push key value).answer = some (key, pair.2) :=
      congrArg (Option.map Displaced.pair) answer
    have put : (cache.put key value).answer = some pair.2 :=
      congrArg (fun displaced => displaced.bind Displaced.replacedValue?) answer
    exact ⟨pushed, put, whole, after, after⟩

end Represents

end Cache

namespace Turn

variable [EquivBEq κ] [LawfulHashable κ] [BEq ν] {cache last : Cache policy κ ν}
  {queue : Queue policy κ ν}

/-- A turn on a cache that spells its keys as they were stored leaves one that does. -/
theorem spelling?_perform (represents : cache.Represents queue) {call : Call κ ν ε ρ}
    (single : call.Single) {past : List (Turn policy κ ν ε ρ)}
    (spelt : ∀ key, queue.Spells key → spelling? past key = some key) {key : κ}
    (spells : (queue.perform call).state.Spells key) :
    spelling? (past ++ [⟨cache, call⟩]) key = some key := by
  have known (new : κ) : cache.containsKey new = (queue.find? new).isSome :=
    represents.containsKey_eq new
  rcases Queue.spells_perform single spells with ⟨stores, keyed, absent⟩ | before
  · have inserted : inserted? ⟨cache, call⟩ = some key := by
      have inserts : Turn.inserts ⟨cache, call⟩ = true := by
        rw [Turn.inserts, Turn.finds, stores, keyed, Option.any_some, known, absent]
        rfl
      rw [inserted?, if_pos inserts, keyed]
    rw [spelling?_concat_of_some inserted, if_pos BEq.rfl]
  · cases inserted : inserted? ⟨cache, call⟩ with
    | none =>
      rw [spelling?_concat_of_none inserted]
      exact spelt key before
    | some new =>
      -- The key that is stored was absent, and this one was not.
      have differs : (new == key) = false := by
        rw [inserted?] at inserted
        split at inserted
        · next inserts =>
          obtain ⟨entry, member, rfl⟩ := before
          rw [Turn.inserts, Turn.finds, inserted, Option.any_some, known, Bool.and_eq_true,
            Bool.not_eq_true'] at inserts
          have missing := Option.isNone_iff_eq_none.mp (Option.isSome_eq_false_iff.mp inserts.2)
          rw [BEq.comm]
          exact Bool.eq_false_iff.mpr (List.find?_eq_none.mp missing entry member)
        · cases inserted
      rw [spelling?_concat_of_some inserted, if_neg (Bool.eq_false_iff.mp differs)]
      exact spelt key before

/-- Turns that lead on from a cache that spells its keys as they were stored lead to one that
does. -/
theorem Lead.spelled {turns : List (Turn policy κ ν ε ρ)} (lead : Lead cache turns last)
    (represents : cache.Represents queue) (single : ∀ turn ∈ turns, turn.call.Single)
    {past : List (Turn policy κ ν ε ρ)}
    (spelt : ∀ key, queue.Spells key → spelling? past key = some key) :
    last.Spelled (past ++ turns) := by
  induction lead generalizing queue past with
  | nil cache =>
    rw [List.append_nil]
    exact represents.spelled spelt
  | cons turn later ih =>
    obtain ⟨now, others⟩ := List.forall_mem_cons.mp single
    have after := ih (represents.perform turn.call).state others
      fun key => spelling?_perform represents now spelt
    rwa [List.append_assoc] at after

end Turn

variable [EquivBEq κ] [LawfulHashable κ] [BEq ν]

/-- In every state that a cache can reach no two keys are equal, and every pair that is listed,
would be evicted, is popped or makes room has the very key that stored it, whatever spellings
were used since. Storing a present key hands out the key that was passed in with the old value
and changes that one pair only; removing it takes out that one pair, and storing it again then
stores the new spelling. Pairs that are stored together count as stored one by one. The same
holds of a cache that threads share, at any moment of any schedule. -/
theorem run_spelled :
    (∀ (policy : Policy) (config : CacheConfig) (calls : List (Call κ ν ε ρ)),
      let cache : Cache policy κ ν := .ofConfig config
      (cache.run calls).state.Spelled (cache.turns (calls.flatMap Call.singly))) ∧
    ∀ (policy : Policy) (config : SharedConfig) (programs : List (List (SharedCall κ ν ε ρ)))
        (schedule : List Nat),
      let start := System.ofPrograms (.ofConfig config : SharedCache policy κ ν) programs
      (start.run schedule).shared.guarded.Spelled (start.works schedule) := by
  have nothing {policy : Policy} {capacity : Capacity} (past : List (Turn policy κ ν ε ρ))
      (key : κ) (spells : (Queue.ofCapacity capacity : Queue policy κ ν).Spells key) :
      Turn.spelling? past key = some key := by
    obtain ⟨entry, member, _⟩ := spells
    cases member
  refine ⟨?alone, ?shared⟩
  case alone =>
    intro policy config calls cache
    obtain ⟨lead, single⟩ := cache.turns_singly_lead calls
    exact lead.spelled (Cache.represents_ofConfig config) single (nothing [])
  case shared =>
    intro policy config programs schedule start
    obtain ⟨lead, _⟩ := start.works_lead schedule
    exact lead.spelled (Cache.represents_ofConfig config.cacheConfig)
      (start.single_of_mem_works schedule) (nothing [])

/-- A key that was replaced and read under another spelling keeps its own; one that was removed
and stored again has the new spelling. -/
theorem run_spelled_restored :
    let cache : Cache .lru FoldedKey Nat := .ofConfig ⟨⟨2, by decide⟩, 16, .threeQuarters⟩
    let calls : List (Call FoldedKey Nat Unit Unit) := [.put ⟨.text "a"⟩ 1, .put ⟨.text "b"⟩ 2,
      .push ⟨.text "A"⟩ 3, .remove ⟨.text "B"⟩, .put ⟨.text "B"⟩ 4, .get ⟨.text "A"⟩]
    let state := (cache.run calls).state
    let turns := cache.turns (calls.flatMap Call.singly)
    state.Spelled turns ∧ state.toList = [(⟨.text "B"⟩, 4), (⟨.text "a"⟩, 3)] ∧
      Turn.spelling? turns ⟨.text "B"⟩ = some ⟨.text "B"⟩ ∧
      (state.push ⟨.text "A"⟩ 5).answer = some (⟨.text "A"⟩, 3) := by
  intro cache calls state turns
  have spelled : state.Spelled turns := run_spelled.1 .lru _ calls
  have listed : state.toList = [(⟨.text "B"⟩, 4), (⟨.text "a"⟩, 3)] :=
    ((Cache.represents_ofConfig _).run calls).state.toList_eq.trans (by cbv)
  have first : (⟨.text "B"⟩, 4) ∈ state.toList := listed ▸ List.mem_cons_self
  have second : (⟨.text "a"⟩, 3) ∈ state.toList :=
    listed ▸ List.mem_cons_of_mem _ List.mem_cons_self
  exact ⟨spelled, listed, spelled.listed _ first, (spelled.replaced _ second _ 5 (by cbv)).1⟩

end EvictionCache
