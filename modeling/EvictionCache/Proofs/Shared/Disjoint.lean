import EvictionCache.Proofs.Queue.Ledger
import EvictionCache.Proofs.Shared.Conservation
import EvictionCache.Proofs.Shared.Separation
import EvictionCache.Workload.Key
import Mathlib

/-!
# Threads whose programs name different keys

Which keys a thread uses can be read off its program. If no key is in two programs and all keys
together fit (`OnOwnKeys`), then the threads are separate under every schedule: nothing is evicted,
each thread gets what it would get alone, and in the end the shared cache holds what the threads
would hold alone, and has counted what they would have counted.
-/
namespace EvictionCache

variable {policy : Policy} {κ ν ε ρ : Type}

/-- The keys that a program names. -/
def keysOf (program : List (SharedCall κ ν ε ρ)) : List κ :=
  program.filterMap fun call => call.alone.key?

/-- A thread takes its turns with calls of its own. -/
theorem mem_callsOf {taken : List (Nat × SharedCall κ ν ε ρ)} {turn : Nat × SharedCall κ ν ε ρ}
    (member : turn ∈ taken) : turn.2 ∈ callsOf turn.1 taken :=
  List.mem_map_of_mem (List.mem_filter.mpr ⟨member, decide_eq_true rfl⟩)

section Keys

variable [BEq κ]

/-- Whether a program names a key under some spelling. -/
def mentions (program : List (SharedCall κ ν ε ρ)) (key : κ) : Bool :=
  (keysOf program).any (· == key)

/-- Whether the program with a number names a key. -/
def owns (programs : List (List (SharedCall κ ν ε ρ))) (number : Nat) (key : κ) : Bool :=
  programs[number]?.any (mentions · key)

/-- Programs whose calls are all on keys, no two of them on one key, and whose keys all fit. -/
structure OnOwnKeys (capacity : Capacity) (programs : List (List (SharedCall κ ν ε ρ))) :
    Prop where
  /-- Every call is on a key. -/
  keyed : ∀ program ∈ programs, ∀ call ∈ program, call.alone.key?.isSome = true
  /-- Different programs name different keys. -/
  apart : programs.Pairwise fun one other =>
    ∀ key ∈ keysOf one, ∀ another ∈ keysOf other, (key == another) = false
  /-- All keys fit, each counted once. -/
  fits : (programs.flatMap keysOf).eraseDups.length ≤ capacity.entries

variable {programs : List (List (SharedCall κ ν ε ρ))} {program : List (SharedCall κ ν ε ρ)}
  {number : Nat} {key : κ}

/-- A thread owns the keys that its program names. -/
theorem owns_eq (planned : programs[number]? = some program) :
    owns programs number = mentions program := by
  funext key
  rw [owns, planned, Option.any_some]

variable [EquivBEq κ]

/-- A program mentions the keys that it names. -/
theorem mentions_of_mem (member : key ∈ keysOf program) : mentions program key = true :=
  List.any_eq_true.mpr ⟨key, member, BEq.rfl⟩

/-- A program mentions a key under all spellings. -/
theorem mentions_congr {one other : κ} (same : (one == other) = true) :
    mentions program one = mentions program other := by
  have alike : ∀ key : κ, (key == one) = (key == other) := fun key => BEq.congr_right same
  simp only [mentions, alike]

/-- A thread owns a key under all spellings. -/
theorem owns_congr (number : Nat) (one other : κ) (same : (one == other) = true) :
    owns programs number one = owns programs number other := by
  rw [owns, owns]
  exact congrArg programs[number]?.any (funext fun _ => mentions_congr same)

/-- No key is mentioned by two programs that name different keys. -/
theorem mentions_of_apart {one other : List (SharedCall κ ν ε ρ)}
    (apart : ∀ key ∈ keysOf one, ∀ another ∈ keysOf other, (key == another) = false)
    (mentioned : mentions other key = true) : mentions one key = false := by
  obtain ⟨another, listed, same⟩ := List.any_eq_true.mp mentioned
  refine Bool.eq_false_iff.mpr fun also => ?_
  obtain ⟨first, named, alike⟩ := List.any_eq_true.mp also
  have equal := PartialEquivBEq.trans alike (BEq.symm same)
  rw [apart first named another listed] at equal
  cases equal

namespace OnOwnKeys

variable {capacity : Capacity}

/-- What one thread owns no other thread owns. -/
theorem exclusive (own : OnOwnKeys capacity programs) (number other : Nat) (key : κ)
    (owned : owns programs number key = true) (differ : other ≠ number) :
    owns programs other key = false := by
  cases planned : programs[number]? with
  | none =>
    rw [owns, planned] at owned
    cases owned
  | some program =>
    cases also : programs[other]? with
    | none =>
      rw [owns, also]
      rfl
    | some another =>
      rw [owns_eq planned] at owned
      rw [owns_eq also]
      obtain ⟨here, rfl⟩ := List.getElem?_eq_some_iff.mp planned
      obtain ⟨there, rfl⟩ := List.getElem?_eq_some_iff.mp also
      rcases Nat.lt_or_gt_of_ne differ with before | after
      · exact mentions_of_apart (List.pairwise_iff_getElem.mp own.apart _ _ there here before) owned
      · refine mentions_of_apart (fun one listed two named => ?_) owned
        rw [BEq.comm]
        exact List.pairwise_iff_getElem.mp own.apart _ _ here there after two named one listed

/-- A call of a program is on a key that its thread owns. -/
theorem exists_key (own : OnOwnKeys capacity programs)
    (planned : programs[number]? = some program) {call : SharedCall κ ν ε ρ}
    (member : call ∈ program) : ∃ key, call.alone.key? = some key ∧
      owns programs number key = true ∧
      ∃ name ∈ programs.flatMap keysOf, (name == key) = true := by
  have present : program ∈ programs := List.mem_of_getElem? planned
  obtain ⟨key, keyed⟩ := Option.isSome_iff_exists.mp (own.keyed program present call member)
  have named : key ∈ keysOf program := List.mem_filterMap.mpr ⟨call, member, keyed⟩
  refine ⟨key, keyed, ?_, key, List.mem_flatMap.mpr ⟨program, present, named⟩, BEq.rfl⟩
  rw [owns_eq planned]
  exact mentions_of_mem named

/-- What is under the names falls into parts by the programs that name it. -/
theorem perm_flatMap (own : OnOwnKeys capacity programs) {sights : List (κ × ν × Option Nat)}
    (named : ∀ sight ∈ sights, ∃ name ∈ programs.flatMap keysOf, (name == sight.1) = true) :
    sights.Perm (programs.flatMap fun program =>
      sights.filter fun sight => mentions program sight.1) := by
  let kinds : List (κ × ν × Option Nat → Bool) :=
    programs.map fun program sight => mentions program sight.1
  have exclusive : kinds.Pairwise fun one other =>
      ∀ sight, other sight = true → one sight = false :=
    List.pairwise_map.mpr (own.apart.imp fun apart _ => mentions_of_apart apart)
  have covered : ∀ sight ∈ sights, ∃ kind ∈ kinds, kind sight = true := by
    intro sight member
    obtain ⟨name, listed, same⟩ := named sight member
    obtain ⟨program, planned, mentioned⟩ := List.mem_flatMap.mp listed
    exact ⟨_, List.mem_map_of_mem planned, (mentions_congr same).symm.trans
      (mentions_of_mem mentioned)⟩
  have parts := perm_flatMap_filter exclusive covered
  rwa [List.flatMap_map] at parts

end OnOwnKeys

end Keys

/-- The metrics of several caches merged into one. -/
def mergedMetrics [BEq κ] [Hashable κ] (parts : List (Cache policy κ ν)) : Metrics policy :=
  (parts.map Cache.metrics).foldr Metrics.merge .fresh

/-- A cache that holds what other caches hold together, and has counted what they counted. -/
structure Cache.Unites [BEq κ] [Hashable κ] (cache : Cache policy κ ν)
    (parts : List (Cache policy κ ν)) : Prop where
  /-- It holds the keys of all of them, with their values and counts. -/
  sights : cache.observe.sights.Perm (parts.flatMap fun part => part.observe.sights)
  /-- No key is held by two of them. -/
  apart : (parts.flatMap fun part => part.observe.sights).Pairwise fun one other =>
    (one.1 == other.1) = false
  /-- The core counts are theirs. -/
  core : cache.metrics.core = (mergedMetrics parts).core
  /-- So are the accesses, where they are counted. -/
  increments : policy.increments cache.metrics.usage =
    policy.increments (mergedMetrics parts).usage
  /-- Under a policy without buckets so is everything. -/
  metrics : policy ≠ .lfru → cache.metrics = mergedMetrics parts
  /-- Under the policy with buckets there is a bucket for every count. -/
  buckets : policy = .lfru → policy.activeBuckets? cache.metrics.usage =
    some (countsOf (parts.flatMap fun part => part.observe.sights)).dedup.length

variable [BEq κ] [Hashable κ]

/-- Metrics whose growing figures are the same differ in the number of buckets only. -/
theorem Metrics.eq_of_counted_eq {one other : Metrics policy}
    (counted : one.counted = other.counted) :
    one.core = other.core ∧ policy.increments one.usage = policy.increments other.usage ∧
      (policy ≠ .lfru → one = other) := by
  have usage : policy.counted one.usage = policy.counted other.usage :=
    (Metrics.mk.inj counted).2
  refine ⟨(Metrics.mk.inj counted).1, ?_, fun without => ?_⟩
  · rw [← policy.increments_counted, usage, policy.increments_counted]
  · rwa [counted_eq_self without, counted_eq_self without] at counted

/-- Caches that look the same and have counted the same unite the same. -/
theorem Cache.Unites.of_eq {cache other : Cache policy κ ν} {parts : List (Cache policy κ ν)}
    (unites : other.Unites parts) (seen : cache.observe = other.observe)
    (counted : cache.metrics = other.metrics) : cache.Unites parts := by
  obtain ⟨sights, apart, core, increments, metrics, buckets⟩ := unites
  rw [← seen] at sights
  rw [← counted] at core increments metrics buckets
  exact ⟨sights, apart, core, increments, metrics, buckets⟩

/-- After every run under the policy with buckets there is a bucket for every count. -/
theorem activeBuckets?_serialRun [BEq ν] [EquivBEq κ] [LawfulHashable κ]
    (bucketed : policy = .lfru) (capacity : Capacity) (calls : List (SharedCall κ ν ε ρ)) :
    let cache : Cache policy κ ν := (serialRun policy capacity calls).state
    policy.activeBuckets? cache.metrics.usage =
      some (countsOf cache.observe.sights).dedup.length := by
  subst bucketed
  intro cache
  rw [show cache = _ from (Cache.serveAll_frame _ _).1]
  exact congrArg some (Cache.activeBuckets_run _ _)

namespace Separate

variable [BEq ν] {capacity : Capacity} {programs : List (List (SharedCall κ ν ε ρ))}
  {taken : List (Nat × SharedCall κ ν ε ρ)}

section Complete

variable (separate : Separate policy capacity (programs.flatMap keysOf) (owns programs)
    programs.length taken)
  (complete : ∀ number program, programs[number]? = some program → callsOf number taken = program)

include separate complete

/-- Threads that have taken all their turns leave what they would leave alone. -/
theorem perm_sights {number : Nat} {program : List (SharedCall κ ν ε ρ)}
    (planned : programs[number]? = some program) :
    ((serialRun policy capacity (taken.map Prod.snd)).state.queue.sights.filter fun sight =>
      mentions program sight.1).Perm (serialRun policy capacity program).state.queue.sights := by
  have shows := separate.shows number
  rwa [complete number program planned, owns_eq planned] at shows

/-- Threads that have taken all their turns have counted what they would have counted alone. -/
theorem counted_eq : (serialRun policy capacity (taken.map Prod.snd)).state.metrics.counted =
    (mergedMetrics (programs.map fun program =>
      (serialRun policy capacity program).state)).counted := by
  have all : (List.range programs.length).map (callsOf · taken) = programs := by
    refine List.ext_getElem (by simp) fun number _ bound => ?_
    rw [List.getElem_map, List.getElem_range]
    exact complete number _ (List.getElem?_eq_getElem bound)
  rw [mergedMetrics, Metrics.counted_foldr_merge, List.map_map, List.map_map, separate.counted]
  nth_rewrite 2 [← all]
  rw [List.map_map]
  rfl

variable [EquivBEq κ] [LawfulHashable κ]

/-- A key of a thread is left with the value and the count that it would have alone. -/
theorem looks_eq {number : Nat} {program : List (SharedCall κ ν ε ρ)}
    (planned : programs[number]? = some program) {key : κ} (named : key ∈ keysOf program) :
    let whole : Cache policy κ ν := (serialRun policy capacity (taken.map Prod.snd)).state
    let part : Cache policy κ ν := (serialRun policy capacity program).state
    whole.peek key = part.peek key ∧ whole.frequency? key = part.frequency? key := by
  have shows := separate.shows number
  rw [complete number program planned] at shows
  refine (represents_serialRun capacity _).looks_shown (represents_serialRun capacity _) shows
    (owns_congr number) ?_
  rw [owns_eq planned]
  exact mentions_of_mem named

/-- Once all threads have taken all their turns the cache holds what they would hold alone. -/
theorem unites (own : OnOwnKeys capacity programs) :
    (serialRun policy capacity (taken.map Prod.snd)).state.Unites
      (programs.map fun program => (serialRun policy capacity program).state) := by
  let whole : Cache policy κ ν := (serialRun policy capacity (taken.map Prod.snd)).state
  have represents : whole.Represents whole.queue := represents_serialRun capacity _
  have sights : whole.observe.sights.Perm
      ((programs.map fun program => (serialRun policy capacity program).state).flatMap
        fun part => part.observe.sights) := by
    have named : ∀ sight ∈ whole.queue.sights,
        ∃ name ∈ programs.flatMap keysOf, (name == sight.1) = true := by
      intro sight member
      obtain ⟨entry, present, rfl⟩ := List.mem_map.mp member
      exact separate.named entry present
    rw [represents.observe_sights, List.flatMap_map]
    refine (own.perm_flatMap named).trans (.flatMap_left _ fun program member => ?_)
    obtain ⟨number, planned⟩ := List.mem_iff_getElem?.mp member
    rw [(represents_serialRun capacity program).observe_sights]
    exact separate.perm_sights complete planned
  have apart : whole.observe.sights.Pairwise fun one other => (one.1 == other.1) = false := by
    rw [represents.observe_sights]
    exact List.pairwise_map.mpr represents.apart
  obtain ⟨core, increments, metrics⟩ := Metrics.eq_of_counted_eq (separate.counted_eq complete)
  refine ⟨sights, ?_, core, increments, metrics, fun bucketed => ?_⟩
  · exact (sights.pairwise_iff fun differ => BEq.comm.trans differ).mp apart
  · rw [activeBuckets?_serialRun bucketed]
    exact congrArg some (sights.filterMap _).dedup.length_eq

end Complete

variable [EquivBEq κ] [LawfulHashable κ]

/-- Threads on keys of their own are separate, whatever turns they take. -/
theorem of_own (own : OnOwnKeys capacity programs)
    (turns : ∀ turn ∈ taken, ∃ program, programs[turn.1]? = some program ∧ turn.2 ∈ program) :
    Separate policy capacity (programs.flatMap keysOf) (owns programs) programs.length taken := by
  refine of_turns own.fits owns_congr own.exclusive fun turn member => ?_
  obtain ⟨program, planned, called⟩ := turns turn member
  exact ⟨(List.getElem?_eq_some_iff.mp planned).1, own.exists_key planned called⟩

end Separate

/-- The answers to the first calls do not depend on the calls to come. -/
theorem prefix_serialRun [BEq ν] (capacity : Capacity) (calls more : List (SharedCall κ ν ε ρ)) :
    (serialRun policy capacity calls).answer <+:
      (serialRun policy capacity (calls ++ more)).answer := by
  induction more using List.reverseRecOn with
  | nil => rw [List.append_nil]
  | append_singleton more call ih =>
    rw [← List.append_assoc, serialRun_concat]
    exact ih.trans (List.prefix_append _ _)

/-- Turns that log nothing evict nothing. -/
theorem Turn.Accounted.evicts_eq_false [BEq ν] {core : CoreMetrics} {size : Nat}
    {turns : List (Turn policy κ ν ε ρ)} (accounted : Turn.Accounted core size [] turns) :
    core.evictions = 0 ∧ ∀ turn ∈ turns, turn.evicts = false := by
  refine ⟨accounted.evictions, fun turn member => ?_⟩
  have silent : turn.outcome.events = [] :=
    List.flatMap_eq_nil_iff.mp accounted.log_eq.symm turn member
  have evicted := accounted.evicts turn member
  rw [silent] at evicted
  cases evicts : turn.evicts with
  | false => rfl
  | true => rw [evicts] at evicted; cases evicted

namespace System

variable [BEq ν] [EquivBEq κ] [LawfulHashable κ]

/-- Threads on keys of their own that share a cache with room for all of them, under any
configuration and any schedule: no entry is ever evicted, and every thread gets the answers that
it would get alone on a cache of the same capacity. After the last return the cache holds under
the keys of each thread what the thread would hold alone, and nothing else, and its metrics are
those of the threads alone merged into one; only the number of buckets does not add up, and is the
number of different counts. -/
theorem run_separate (policy : Policy) (config : SharedConfig)
    (programs : List (List (SharedCall κ ν ε ρ)))
    (own : OnOwnKeys config.base.capacity programs) (schedule : List Nat) :
    let start := ofPrograms (.ofConfig config : SharedCache policy κ ν) programs
    let system := start.run schedule
    let alone (program : List (SharedCall κ ν ε ρ)) : Outcome (Cache policy κ ν) _ :=
      serialRun policy config.base.capacity program
    (system.log = [] ∧ system.shared.metrics.core.evictions = 0 ∧
      ∀ turn ∈ start.works schedule, turn.evicts = false) ∧
    (∀ (number : Nat) program, programs[number]? = some program →
      ∃ thread, system.threads[number]? = some thread ∧
        thread.replies <+: (alone program).answer ∧
        (thread.stage = .idle → thread.program = [] →
          thread.replies = (alone program).answer)) ∧
    (system.Finished →
      (∀ program ∈ programs, ∀ key ∈ keysOf program,
        system.shared.peek key = (alone program).state.peek key ∧
          system.shared.frequency? key = (alone program).state.frequency? key) ∧
      system.shared.guarded.Unites (programs.map fun program => (alone program).state)) := by
  intro start system alone
  have replays : system.Replays (.ofCapacity config.base.capacity) programs :=
    (replays_ofPrograms config programs).run schedule
  have serial : system.serial (.ofCapacity config.base.capacity) =
      serialRun policy config.base.capacity (system.taken.map Prod.snd) := by
    rw [System.serial, serialRun, List.map_map]
    rfl
  have separate : Separate policy config.base.capacity (programs.flatMap keysOf) (owns programs)
      programs.length system.taken := by
    refine .of_own own fun turn member => ?_
    have planned := List.getElem?_eq_getElem (replays.turns turn member)
    obtain ⟨thread, _, whole, _⟩ := replays.exists_thread planned
    refine ⟨_, planned, ?_⟩
    rw [← whole]
    exact List.mem_append_left _ (mem_callsOf member)
  refine ⟨?log, fun number program planned => ?replies, fun finished => ?done⟩
  case log =>
    -- The log of the replay has what is to come as well, so the log so far is empty too.
    have silent : system.log = [] := by
      have events := replays.log
      rw [serial, separate.events] at events
      exact (List.append_eq_nil_iff.mp events).1
    obtain ⟨lead, logged⟩ := start.works_lead schedule
    have accounted := lead.accounted (start.single_of_mem_works schedule)
    have log : system.log = _ := logged.trans (List.nil_append _)
    rw [← log, silent] at accounted
    exact ⟨silent, accounted.evicts_eq_false⟩
  case replies =>
    obtain ⟨thread, found, whole, early, all⟩ := replays.exists_thread planned
    rw [serial, separate.replies number] at early all
    refine ⟨thread, found, ?_, fun idle last => ?_⟩
    · rw [← whole]
      exact early.trans (prefix_serialRun _ _ _)
    · rw [last, List.append_nil] at whole
      rw [all idle, whole]
  case done =>
    -- A thread that has returned from its last call has taken its turns in full.
    have complete (number : Nat) (program : List (SharedCall κ ν ε ρ))
        (planned : programs[number]? = some program) :
        callsOf number system.taken = program := by
      obtain ⟨thread, found, whole, _⟩ := replays.exists_thread planned
      rwa [(finished thread (List.mem_of_getElem? found)).2, List.append_nil] at whole
    have agrees := (replays.of_free (replays.holder_of_finished finished)).1.agrees
    rw [serial] at agrees
    refine ⟨fun program member key named => ?_, ?_⟩
    · obtain ⟨number, planned⟩ := List.mem_iff_getElem?.mp member
      have looks := separate.looks_eq complete planned named
      have same := agrees.entry?_eq key
      rw [SharedCache.peek, SharedCache.frequency?, Cache.peek, Cache.frequency?, same]
      exact looks
    · refine (separate.unites complete own).of_eq ?_ agrees.metrics
      rw [Cache.observe, Cache.observe, agrees.entries_eq]

/-- The programs of two threads that name one key each, one of them under two spellings. -/
def twoPrograms : List (List (SharedCall FoldedKey Nat Unit Unit)) :=
  [[.put ⟨.text "a"⟩ 1, .get ⟨.text "A"⟩], [.put ⟨.text "b"⟩ 2, .frequency ⟨.text "b"⟩]]

/-- The two threads on a cache with room for both keys, their calls overlapping. -/
def bothPrograms : System .lfru FoldedKey Nat Unit Unit :=
  (ofPrograms (.ofConfig ⟨.ofCapacity ⟨2, Nat.two_pos⟩, 8⟩) twoPrograms).run
    [0, 1, 0, 0, 1, 0, 1, 1, 1, 0, 0, 0, 0, 1, 1, 1, 1]

/-- One thread reads its key twice as often as the other, so there are two buckets in the end, and
neither thread notices. -/
theorem run_separate_two_programs :
    (∃ thread, bothPrograms.threads[1]? = some thread ∧
      thread.replies = [.value none, .count (some 1)]) ∧
    bothPrograms.shared.peek ⟨.text "A"⟩ = some 1 ∧
    bothPrograms.shared.metrics.usage.activeBuckets = 2 := by
  have own : OnOwnKeys ⟨2, Nat.two_pos⟩ twoPrograms :=
    ⟨by decide, by decide +kernel, by decide +kernel⟩
  have threads : bothPrograms.threads.map (fun thread => (thread.stage, thread.program)) =
      [(.idle, []), (.idle, [])] := rfl
  have finished : bothPrograms.Finished := by
    intro thread member
    have listed := List.mem_map_of_mem (f := fun thread => (thread.stage, thread.program)) member
    rw [threads] at listed
    simpa using listed
  obtain ⟨_, answers, done⟩ := run_separate .lfru ⟨.ofCapacity ⟨2, Nat.two_pos⟩, 8⟩ twoPrograms own
    [0, 1, 0, 0, 1, 0, 1, 1, 1, 0, 0, 0, 0, 1, 1, 1, 1]
  obtain ⟨looks, unites⟩ := done finished
  have represents (program : List (SharedCall FoldedKey Nat Unit Unit)) :
      (serialRun .lfru ⟨2, Nat.two_pos⟩ program).state.Represents
        ((Queue.ofCapacity ⟨2, Nat.two_pos⟩).run
          ((program.map SharedCall.alone).filterMap Request.call?)).state :=
    (Cache.represents_ofConfig _).serveAll _
  have sights : (twoPrograms.map fun program =>
      (serialRun .lfru ⟨2, Nat.two_pos⟩ program).state).flatMap (fun part => part.observe.sights) =
      twoPrograms.flatMap fun program => ((Queue.ofCapacity ⟨2, Nat.two_pos⟩).run
        ((program.map SharedCall.alone).filterMap Request.call?)).state.sights :=
    (List.flatMap_map ..).trans
      (List.flatMap_congr fun program _ => (represents program).observe_sights)
  refine ⟨?replies, ?value, ?buckets⟩
  case replies =>
    obtain ⟨thread, found, _, replies⟩ := answers 1 _ rfl
    obtain ⟨idle, last⟩ := finished thread (List.mem_of_getElem? found)
    exact ⟨thread, found,
      (replies idle last).trans ((Cache.answer_serveAll_run _ [] _).trans (by cbv))⟩
  case value =>
    have value := (looks _ List.mem_cons_self ⟨.text "A"⟩
      (List.mem_cons_of_mem _ List.mem_cons_self)).1
    refine value.trans ?_
    refine (congrArg (Option.map Entry.value) ((represents _).entry?_eq _)).trans ?_
    cbv
  case buckets =>
    refine (Option.some.inj (unites.buckets rfl)).trans ?_
    refine (congrArg (fun sights => (countsOf sights).dedup.length) sights).trans ?_
    cbv

end System

end EvictionCache
