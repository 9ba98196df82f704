import EvictionCache.Proofs.Cache.Figures
import EvictionCache.Proofs.Cache.Standing
import EvictionCache.Proofs.Queue.Names
import EvictionCache.Proofs.Shared.Replay
import EvictionCache.Workload.Key
import Mathlib

/-!
# Threads on keys of their own

Threads that share a cache but no keys, and whose keys all fit, do not notice one another. The
order of eviction, the slots and the sequence numbers depend on the schedule, but no entry has to
leave, so they make no difference: the shared cache holds what each thread would have in a cache
of its own (`Separate.shows`), and has counted what those caches would have counted together.
-/
namespace EvictionCache

variable {policy : Policy} {κ ν ε ρ : Type}

/-- A call on a key does one thing only. -/
theorem Call.single_of_key? {call : Call κ ν ε ρ} {key : κ} (keyed : call.key? = some key) :
    call.Single := by
  cases call with
  | extend => cases keyed
  | _ => exact trivial

variable [BEq κ] [Hashable κ]

section Shown

variable [EquivBEq κ] {whole part : Cache policy κ ν} {queue shown : Queue policy κ ν}
  {mine : κ → Bool}

/-- A key that is shown has the same value and the same count in both caches. -/
theorem Cache.Represents.looks_shown (represents : whole.Represents queue)
    (also : part.Represents shown) (shows : queue.Shows mine shown)
    (alike : ∀ one other, (one == other) = true → mine one = mine other) {key : κ}
    (named : mine key = true) :
    whole.peek key = part.peek key ∧ whole.frequency? key = part.frequency? key := by
  rw [Cache.peek, Cache.peek, Cache.frequency?, Cache.frequency?, represents.entry?_eq,
    also.entry?_eq]
  exact ⟨shows.find?_eq alike also.finds named fun sight => sight.2.1,
    shows.frequency?_eq alike also.finds named⟩

variable [LawfulHashable κ]

/-- A call finds its key if the queue does. -/
theorem Cache.Represents.turn_finds (represents : whole.Represents queue) {call : Call κ ν ε ρ}
    {key : κ} (keyed : call.key? = some key) :
    Turn.finds ⟨whole, call⟩ = (queue.find? key).isSome := by
  rw [Turn.finds, keyed, Option.any_some, represents.containsKey_eq]

variable [BEq ν]

/-- A call on a key evicts nothing if there is room for what it stores. -/
theorem Cache.Represents.evicts_of_room (represents : whole.Represents queue)
    {call : Call κ ν ε ρ} {key : κ} (keyed : call.key? = some key)
    (room : queue.find? key = none → queue.entries.length < queue.capacity) :
    Turn.evicts ⟨whole, call⟩ = false := by
  refine Bool.eq_false_iff.mpr fun evicts => ?_
  have kept : Turn.Kept ⟨whole, call⟩ := Turn.kept represents (Call.single_of_key? keyed)
  obtain ⟨inserts, full⟩ := kept.evicts_iff.mp evicts
  rw [Turn.inserts, represents.turn_finds keyed, Bool.and_eq_true, Bool.not_eq_true',
    Option.isSome_eq_false_iff, Option.isNone_iff_eq_none] at inserts
  rw [represents.size_eq, represents.capacity_eq] at full
  exact Nat.not_le_of_lt (room inserts.2) full

/-- A call on a key that is shown answers and counts the same in both caches if there is room. -/
theorem Cache.Represents.perform_shown (represents : whole.Represents queue)
    (also : part.Represents shown) (shows : queue.Shows mine shown)
    (alike : ∀ one other, (one == other) = true → mine one = mine other) {call : Call κ ν ε ρ}
    {key : κ} (keyed : call.key? = some key) (named : mine key = true)
    (room : queue.find? key = none → queue.entries.length < queue.capacity)
    (spare : shown.find? key = none → shown.entries.length < shown.capacity) :
    (whole.perform call).answer = (part.perform call).answer ∧
      (queue.perform call).state.Shows mine (shown.perform call).state ∧
      Turn.figures ⟨whole, call⟩ = Turn.figures ⟨part, call⟩ := by
  have single := Call.single_of_key? keyed
  have found : (queue.find? key).map policy.sight = (shown.find? key).map policy.sight :=
    shows.find?_eq alike also.finds named id
  have present : (queue.find? key).isSome = (shown.find? key).isSome := by
    rw [← Option.isSome_map, found, Option.isSome_map]
  have fresh : policy.frequency? queue.fresh = policy.frequency? shown.fresh :=
    represents.frequency?_fresh.trans also.frequency?_fresh.symm
  obtain ⟨answer, state⟩ := shows.perform alike also.finds keyed named fresh fun _ absent => by
    have missing : shown.find? key = none := by
      rwa [absent, Option.isSome_none, eq_comm, Option.isSome_eq_false_iff,
        Option.isNone_iff_eq_none] at present
    rw [Queue.makeRoom_of_room (room absent), Queue.makeRoom_of_room (spare missing)]
    exact ⟨shows, rfl⟩
  rw [← (represents.perform call).answer, ← (also.perform call).answer] at answer
  refine ⟨answer, state, congrArg₂ Metrics.mk (Turn.tally_congr rfl ?_ ?_ ?_) ?_⟩
  · rw [represents.turn_finds keyed, also.turn_finds keyed, present]
  · rw [represents.evicts_of_room keyed room, also.evicts_of_room keyed spare]
  · exact congrArg (fun answer => call.removes && Reply.found answer) answer
  · refine Policy.added_congr ?_
    rw [represents.accessed?_eq, also.accessed?_eq, keyed]
    split
    · exact found
    · rfl

end Shown

section Serial

variable [BEq ν]

/-- Calls on a shared cache, one after another on a cache of one owner. -/
def serialRun (policy : Policy) (capacity : Capacity) (calls : List (SharedCall κ ν ε ρ)) :
    Outcome (Cache policy κ ν) (List (Reply κ ν ε ρ)) :=
  (Cache.ofCapacity capacity).serveAll (calls.map SharedCall.alone)

/-- One more call is carried out after the others. -/
theorem serialRun_concat (capacity : Capacity) (calls : List (SharedCall κ ν ε ρ))
    (call : SharedCall κ ν ε ρ) :
    serialRun policy capacity (calls ++ [call]) =
      (serialRun policy capacity calls).andThen fun replies after =>
        (after.serve call.alone).map fun reply => replies ++ [reply] := by
  rw [serialRun, List.map_append, List.map_singleton, Cache.serveAll_concat]
  rfl

/-- A turn of a thread is carried out after its earlier ones. -/
theorem serialRun_callsOf_self (capacity : Capacity) (number : Nat)
    (taken : List (Nat × SharedCall κ ν ε ρ)) (call : SharedCall κ ν ε ρ) :
    serialRun policy capacity (callsOf number (taken ++ [(number, call)])) =
      (serialRun policy capacity (callsOf number taken)).andThen fun replies after =>
        (after.serve call.alone).map fun reply => replies ++ [reply] := by
  rw [callsOf_concat, if_pos rfl, serialRun_concat]

/-- A turn of another thread changes nothing for a thread that is alone. -/
theorem serialRun_callsOf_of_ne (capacity : Capacity) {number other : Nat}
    (apart : other ≠ number) (taken : List (Nat × SharedCall κ ν ε ρ))
    (call : SharedCall κ ν ε ρ) :
    serialRun policy capacity (callsOf other (taken ++ [(number, call)])) =
      serialRun policy capacity (callsOf other taken) := by
  rw [callsOf_concat, if_neg apart.symm, List.append_nil]

/-- There is an answer for every call. -/
theorem length_serialRun (capacity : Capacity) (calls : List (SharedCall κ ν ε ρ)) :
    (serialRun policy capacity calls).answer.length = calls.length := by
  rw [serialRun, Cache.length_serveAll, List.length_map]

/-- As many entries fit after any calls as before. -/
theorem capacity_serialRun (capacity : Capacity) (calls : List (SharedCall κ ν ε ρ)) :
    (serialRun policy capacity calls).state.queue.capacity = capacity.entries := by
  rw [serialRun, (Cache.serveAll_frame _ _).1]
  exact Cache.capacity_run _ _

variable [EquivBEq κ] [LawfulHashable κ]

/-- A cache is in order after any calls. -/
theorem represents_serialRun (capacity : Capacity) (calls : List (SharedCall κ ν ε ρ)) :
    (serialRun policy capacity calls).state.Represents
      (serialRun policy capacity calls).state.queue := by
  have reached : (serialRun policy capacity calls).state.Represents _ :=
    (Cache.represents_ofConfig _).serveAll _
  rw [reached.queue_eq]
  exact reached

end Serial

/-- Threads that took their turns on a shared cache as if each had a cache of its own. A thread
owns the keys of its calls. -/
structure Separate [BEq ν] (policy : Policy) (capacity : Capacity) (names : List κ)
    (owns : Nat → κ → Bool) (threads : Nat) (taken : List (Nat × SharedCall κ ν ε ρ)) : Prop where
  /-- Each thread gets the answers that it would get alone. -/
  replies : ∀ number,
    repliesTo number taken (serialRun policy capacity (taken.map Prod.snd)).answer =
      (serialRun policy capacity (callsOf number taken)).answer
  /-- Nothing is logged. -/
  events : (serialRun policy capacity (taken.map Prod.snd)).events = []
  /-- The cache holds under the keys of a thread what the thread would hold alone. -/
  shows : ∀ number,
    (serialRun policy capacity (taken.map Prod.snd)).state.queue.Shows (owns number)
      (serialRun policy capacity (callsOf number taken)).state.queue
  /-- All keys are among the names. -/
  named : (serialRun policy capacity (taken.map Prod.snd)).state.queue.Named names
  /-- What was counted is what the threads would have counted alone. -/
  counted : (serialRun policy capacity (taken.map Prod.snd)).state.metrics.counted =
    ∑ number ∈ Finset.range threads,
      (serialRun policy capacity (callsOf number taken)).state.metrics.counted

namespace Separate

variable [BEq ν] {capacity : Capacity} {names : List κ} {owns : Nat → κ → Bool} {threads : Nat}
  {taken : List (Nat × SharedCall κ ν ε ρ)}

variable [EquivBEq κ] [LawfulHashable κ]

/-- Threads that have not begun are separate. -/
theorem nil : Separate policy capacity names owns threads
    ([] : List (Nat × SharedCall κ ν ε ρ)) := by
  have empty : (Cache.ofCapacity capacity : Cache policy κ ν).queue = .ofCapacity capacity :=
    (Cache.represents_ofConfig _).queue_eq
  have fresh : (Metrics.fresh : Metrics policy).counted = 0 := by cases policy <;> rfl
  refine ⟨fun number => rfl, rfl, fun number => ?_, ?_, ?_⟩
  · change Queue.Shows _ (Cache.ofCapacity capacity : Cache policy κ ν).queue
      (Cache.ofCapacity capacity : Cache policy κ ν).queue
    rw [empty]
    exact .refl []
  · change Queue.Named (Cache.ofCapacity capacity : Cache policy κ ν).queue names
    rw [empty]
    exact fun entry member => nomatch member
  · exact fresh.trans (Finset.sum_eq_zero fun number _ => fresh).symm

variable {number : Nat} {call : SharedCall κ ν ε ρ} {key : κ}

/-- There is room for one of the names if there is room for all. -/
theorem room (separate : Separate policy capacity names owns threads taken)
    (fits : names.eraseDups.length ≤ capacity.entries)
    (listed : ∃ name ∈ names, (name == key) = true)
    (absent : (serialRun policy capacity (taken.map Prod.snd)).state.queue.find? key = none) :
    (serialRun policy capacity (taken.map Prod.snd)).state.queue.entries.length <
      capacity.entries :=
  (separate.named.room (represents_serialRun capacity _).apart listed absent).trans_le fits

omit [EquivBEq κ] [LawfulHashable κ] in
/-- A thread alone holds no more than all together. -/
theorem length_le (separate : Separate policy capacity names owns threads taken) (number : Nat) :
    (serialRun policy capacity (callsOf number taken)).state.queue.entries.length ≤
      (serialRun policy capacity (taken.map Prod.snd)).state.queue.entries.length := by
  have lengths := (separate.shows number).length_eq
  have kept := List.length_filter_le (fun sight : κ × ν × Option Nat => owns number sight.1)
    (serialRun policy capacity (taken.map Prod.snd)).state.queue.sights
  rw [lengths, Queue.sights, Queue.sights, List.length_map, List.length_map] at kept
  exact kept

/-- There is room for an absent key of a thread that is alone. -/
theorem spare (separate : Separate policy capacity names owns threads taken)
    (fits : names.eraseDups.length ≤ capacity.entries)
    (alike : ∀ one other, (one == other) = true → owns number one = owns number other)
    (owned : owns number key = true) (listed : ∃ name ∈ names, (name == key) = true)
    (absent : (serialRun policy capacity (callsOf number taken)).state.queue.find? key = none) :
    (serialRun policy capacity (callsOf number taken)).state.queue.entries.length <
      capacity.entries := by
  rcases (separate.shows number).find?_cases alike (represents_serialRun capacity _).finds owned
    with ⟨missing, _⟩ | ⟨_, _, _, found, _⟩
  · exact (separate.length_le number).trans_lt (separate.room fits listed missing)
  · rw [absent] at found
    cases found

/-- A turn on a key of its thread leaves the threads separate. -/
theorem concat (separate : Separate policy capacity names owns threads taken)
    (keyed : call.alone.key? = some key) (bound : number < threads)
    (alike : ∀ number one other, (one == other) = true → owns number one = owns number other)
    (owned : owns number key = true)
    (foreign : ∀ other, other ≠ number → owns other key = false)
    (listed : ∃ name ∈ names, (name == key) = true)
    (fits : names.eraseDups.length ≤ capacity.entries) :
    Separate policy capacity names owns threads (taken ++ [(number, call)]) := by
  obtain ⟨own, plain, keyed⟩ := Request.exists_call keyed
  let all : Outcome (Cache policy κ ν) _ := serialRun policy capacity (taken.map Prod.snd)
  let solo (other : Nat) : Outcome (Cache policy κ ν) _ :=
    serialRun policy capacity (callsOf other taken)
  have whole : all.state.Represents all.state.queue := represents_serialRun capacity _
  have part : (solo number).state.Represents (solo number).state.queue :=
    represents_serialRun capacity _
  -- Nothing is evicted on either side, so the order of eviction never matters.
  have room (absent : all.state.queue.find? key = none) :
      all.state.queue.entries.length < all.state.queue.capacity :=
    (separate.room fits listed absent).trans_eq (capacity_serialRun capacity _).symm
  have spare (absent : (solo number).state.queue.find? key = none) :
      (solo number).state.queue.entries.length < (solo number).state.queue.capacity :=
    (separate.spare fits (alike number) owned listed absent).trans_eq
      (capacity_serialRun capacity _).symm
  obtain ⟨answer, shown, figures⟩ :=
    whole.perform_shown part (separate.shows number) (alike number) keyed owned room spare
  have together : serialRun policy capacity ((taken ++ [(number, call)]).map Prod.snd) =
      all.andThen fun replies after =>
        (after.perform own).map fun reply => replies ++ [reply] := by
    rw [List.map_append, List.map_singleton, serialRun_concat, plain]
    rfl
  have mine : serialRun policy capacity (callsOf number (taken ++ [(number, call)])) =
      (solo number).andThen fun replies after =>
        (after.perform own).map fun reply => replies ++ [reply] := by
    rw [serialRun_callsOf_self, plain]
    rfl
  have others {other : Nat} (apart : other ≠ number) :
      serialRun policy capacity (callsOf other (taken ++ [(number, call)])) = solo other :=
    serialRun_callsOf_of_ne capacity apart taken call
  refine ⟨fun other => ?replies, ?events, fun other => ?shows, ?named, ?counted⟩
  case replies =>
    have length : taken.length = all.answer.length := by
      rw [length_serialRun, List.length_map]
    have answered := repliesTo_concat other number length call
      (all.state.perform own).answer
    rw [together]
    refine answered.trans ?_
    by_cases same : other = number
    · rw [same, mine, if_pos rfl, separate.replies, answer]
      rfl
    · rw [others same, if_neg (Ne.symm same), List.append_nil]
      exact separate.replies other
  case events =>
    have silent : (all.state.perform own).events = [] :=
      (whole.perform own).events.trans (Queue.events_perform keyed room)
    rw [together]
    exact (congrArg₂ (· ++ ·) separate.events silent).trans (List.append_nil [])
  case shows =>
    rw [together]
    change Queue.Shows _ (all.state.perform own).state.queue _
    rw [(whole.perform own).state.queue_eq]
    by_cases same : other = number
    · rw [same, mine]
      change Queue.Shows _ _ ((solo number).state.perform own).state.queue
      rw [(part.perform own).state.queue_eq]
      exact shown
    · rw [others same]
      refine (separate.shows other).perform_left (alike other) keyed (foreign other same) ?_
      intro _ absent
      rw [Queue.makeRoom_of_room (room absent)]
      exact separate.shows other
  case named =>
    rw [together]
    change Queue.Named (all.state.perform own).state.queue names
    rw [(whole.perform own).state.queue_eq]
    exact separate.named.perform keyed listed
  case counted =>
    have single := Call.single_of_key? keyed
    have each (other : Nat) :
        (serialRun policy capacity
          (callsOf other (taken ++ [(number, call)]))).state.metrics.counted =
        (solo other).state.metrics.counted +
          if other = number then Turn.figures ⟨all.state, own⟩ else 0 := by
      by_cases same : other = number
      · rw [same, mine, if_pos rfl, figures]
        exact part.counted_perform single
      · rw [others same, if_neg same, add_zero]
    rw [together, Finset.sum_congr rfl fun other _ => each other, Finset.sum_add_distrib,
      Finset.sum_ite_eq', if_pos (Finset.mem_range.mpr bound), ← separate.counted]
    exact whole.counted_perform single

/-- Threads are separate if they take turns on keys of their own only. -/
theorem of_turns (fits : names.eraseDups.length ≤ capacity.entries)
    (alike : ∀ number one other, (one == other) = true → owns number one = owns number other)
    (exclusive : ∀ number other key, owns number key = true → other ≠ number →
      owns other key = false)
    (turns : ∀ turn ∈ taken, turn.1 < threads ∧ ∃ key, turn.2.alone.key? = some key ∧
      owns turn.1 key = true ∧ ∃ name ∈ names, (name == key) = true) :
    Separate policy capacity names owns threads taken := by
  induction taken using List.reverseRecOn with
  | nil => exact nil
  | append_singleton before turn ih =>
    obtain ⟨bound, key, keyed, owned, listed⟩ :=
      turns turn (List.mem_append_right _ List.mem_cons_self)
    have separate := ih fun earlier member => turns earlier (List.mem_append_left _ member)
    exact separate.concat keyed bound alike owned (fun other => exclusive turn.1 other key owned)
      listed fits

end Separate

end EvictionCache
