import EvictionCache.Cache.Bounded
import EvictionCache.Proofs.Cache.Books
import EvictionCache.Proofs.Shared.Replay
import EvictionCache.Workload.Key
import Mathlib

/-!
# Conservation of entries

Entries come by insertions and go by evictions, removals and clearing, and the counters, the
contents and the log of a cache agree on how many did (`Turn.Accounted`), whether one owner uses
the cache or threads share it. When threads share a cache its turns are the steps in which a
thread that holds the lock works on the cache (`System.works`). At every moment the books are
kept with the turns so far; whenever nobody holds the lock those are the calls that took it.
-/
namespace EvictionCache

variable {policy : Policy} {κ ν ε ρ : Type} [BEq κ] [Hashable κ]

/-- The counters, the number of entries and the log that some turns leave. -/
structure Turn.Accounted [BEq ν] (core : CoreMetrics) (size : Nat) (log : List Event)
    (turns : List (Turn policy κ ν ε ρ)) : Prop where
  /-- Every entry that was inserted is there, or was evicted, removed or cleared. -/
  entries : core.insertions = core.evictions + core.removals + size + clearedIn log
  /-- Every eviction is in the log. -/
  evictions : core.evictions = log.count (.evicted policy)
  /-- Every value that was stored was inserted or updated one. -/
  stored : core.insertions + core.updates = turns.countP fun turn => turn.call.stores
  /-- Updates are the values stored under present keys. -/
  updates : core.updates = turns.countP Turn.updates
  /-- Removals are the requests that handed out an entry. -/
  removals : core.removals = turns.countP Turn.removes
  /-- Requests are the lookups. -/
  requests : core.requests = turns.countP fun turn => turn.call.looksUp
  /-- Hits are the lookups that found their keys. -/
  hits : core.hits = turns.countP Turn.hits
  /-- No more lookups found their keys than there were. -/
  hits_le : core.hits ≤ core.requests
  /-- Misses are the lookups that did not find their keys. -/
  misses : core.misses = turns.countP fun turn => turn.call.looksUp && !turn.finds
  /-- The log holds what the turns logged. -/
  log_eq : log = turns.flatMap fun turn => turn.outcome.events
  /-- Exactly one eviction is logged in each turn in which an entry leaves for another, and none
  in any other turn. -/
  evicts : ∀ turn ∈ turns,
    turn.outcome.events.count (.evicted policy) = if turn.evicts then 1 else 0
  /-- An entry leaves for another exactly when an absent key is stored in a full cache. -/
  evicts_iff : ∀ turn ∈ turns,
    turn.evicts = true ↔ turn.inserts = true ∧ turn.cache.capacity ≤ turn.cache.size
  /-- A lookup hands out something exactly if its key is present. -/
  found : ∀ turn ∈ turns, turn.call.looksUp = true → turn.outcome.answer.found = turn.finds

/-- Turns that lead from a cache without entries are accounted for. -/
theorem Turn.Lead.accounted [BEq ν] [EquivBEq κ] [LawfulHashable κ] {config : CacheConfig}
    {last : Cache policy κ ν} {turns : List (Turn policy κ ν ε ρ)}
    (lead : Lead (.ofConfig config) turns last) (single : ∀ turn ∈ turns, turn.call.Single) :
    Accounted last.metrics.core last.size
      (turns.flatMap fun turn => turn.outcome.events) turns := by
  obtain ⟨books, kept⟩ := lead.books (Cache.represents_ofConfig config) single
  have counted : last.metrics.core = tallyAll turns := by
    rw [books.core]
    simp [CoreMetrics.merge, Cache.ofConfig, Metrics.fresh, CoreMetrics.fresh]
  have empty : (Cache.ofConfig config : Cache policy κ ν).size = 0 :=
    Std.HashMap.size_emptyWithCapacity
  have balance := books.size
  have evictions := books.evictions
  rw [empty, Nat.zero_add] at balance
  rw [counted]
  rw [tallyAll_eq] at balance evictions ⊢
  have lookups := countP_finds_add turns fun turn => turn.call.looksUp
  exact {
    entries := by dsimp only at balance ⊢; omega
    evictions := evictions.symm
    stored := (Nat.add_comm _ _).trans (countP_finds_add turns _)
    updates := rfl
    removals := rfl
    requests := rfl
    hits := rfl
    hits_le := Nat.le.intro lookups
    misses := Nat.sub_eq_of_eq_add' lookups.symm
    log_eq := rfl
    evicts := fun turn member => by
      rw [(kept turn member).books.evictions]
      change turn.evicts.toNat = _
      cases turn.evicts <;> rfl
    evicts_iff := fun turn member => (kept turn member).evicts_iff
    found := fun turn member => (kept turn member).found }

/-- A call does to the guarded cache and to the log what the same request does alone. -/
theorem SharedCache.perform_alone [BEq ν] (shared : SharedCache policy κ ν)
    (call : SharedCall κ ν ε ρ) :
    (shared.perform call).state.guarded = (shared.guarded.serve call.alone).state ∧
      (shared.perform call).events = (shared.guarded.serve call.alone).events := by
  cases call <;> exact ⟨rfl, rfl⟩

/-- A request works on a cache and logs in the turn of its call only, if it is one. -/
theorem Cache.serve_leads [BEq ν] (cache : Cache policy κ ν) (request : Request κ ν ε ρ) :
    let turns : List (Turn policy κ ν ε ρ) := request.call?.toList.map fun call => ⟨cache, call⟩
    Turn.Lead cache turns (cache.serve request).state ∧
      (cache.serve request).events = turns.flatMap fun turn => turn.outcome.events := by
  cases request with
  | call call => exact ⟨.cons ⟨cache, call⟩ (.nil _), (List.append_nil _).symm⟩
  | metrics | report => exact ⟨.nil _, rfl⟩

section Calls

omit [BEq κ] [Hashable κ]

/-- The call that a thread at a stage is about to carry out on the cache, if it does not only ask
for metrics. -/
def CallStage.pending : CallStage κ ν ε ρ → List (Call κ ν ε ρ)
  | entered call => call.alone.call?.toList
  | idle | worked _ | leaving _ => []

/-- Every call of a shared cache does one thing only. -/
theorem CallStage.single_of_mem_pending {stage : CallStage κ ν ε ρ} {call : Call κ ν ε ρ}
    (member : call ∈ stage.pending) : call.Single := by
  cases stage with
  | entered shared =>
    have own : shared.alone.call? = some call := Option.mem_toList.mp member
    cases shared with
    | metrics | report => cases own
    | _ =>
      obtain rfl := Option.some.inj own
      exact trivial
  | idle | worked | leaving => cases member

/-- The calls on the guarded cache among those that got hold of it. -/
def lockedCalls (taken : List (Nat × SharedCall κ ν ε ρ)) : List (Call κ ν ε ρ) :=
  (taken.filter fun turn => turn.2.needsLock).filterMap fun turn => turn.2.alone.call?

/-- A turn adds its call if the call is on the guarded cache. -/
theorem lockedCalls_concat (taken : List (Nat × SharedCall κ ν ε ρ)) (number : Nat)
    (call : SharedCall κ ν ε ρ) :
    lockedCalls (taken ++ [(number, call)]) =
      lockedCalls taken ++ if call.needsLock then call.alone.call?.toList else [] := by
  rw [lockedCalls, List.filter_append, List.filterMap_append, List.filter_singleton]
  cases call.needsLock with
  | false => rfl
  | true => cases own : call.alone.call? <;> simp [lockedCalls, own]

end Calls

namespace System

/-- The turn in which the next step of a thread works on the cache, if it does. -/
def work (system : System policy κ ν ε ρ) (number : Nat) : List (Turn policy κ ν ε ρ) :=
  match system.threads[number]? with
  | none => []
  | some thread => thread.stage.pending.map fun call => ⟨system.shared.guarded, call⟩

/-- The turns in which the steps of a schedule work on the cache. -/
def works (system : System policy κ ν ε ρ) : List Nat → List (Turn policy κ ν ε ρ)
  | [] => []
  | number :: rest => system.work number ++ (system.step number).works rest

/-- Beginning a call does not work on the cache. -/
theorem enter_frame (system : System policy κ ν ε ρ) (number : Nat) (thread : Thread κ ν ε ρ) :
    (system.enter number thread).shared = system.shared ∧
      (system.enter number thread).log = system.log := by
  rw [enter]
  cases thread.program with
  | nil => exact ⟨rfl, rfl⟩
  | cons call rest =>
    dsimp only
    split
    · split <;> exact ⟨rfl, rfl⟩
    · exact ⟨rfl, rfl⟩

/-- Every turn of a schedule is that of one call of a shared cache. -/
theorem single_of_mem_works (system : System policy κ ν ε ρ) (schedule : List Nat) :
    ∀ turn ∈ system.works schedule, turn.call.Single := by
  induction schedule generalizing system with
  | nil => exact fun turn member => nomatch member
  | cons number rest ih =>
    intro turn member
    rcases List.mem_append.mp member with now | later
    · rw [work] at now
      split at now
      · cases now
      · obtain ⟨call, pending, rfl⟩ := List.mem_map.mp now
        exact CallStage.single_of_mem_pending pending
    · exact ih _ turn later

variable [BEq ν]

/-- A step works on the cache and logs in its turn only. -/
theorem step_leads (system : System policy κ ν ε ρ) (number : Nat) :
    Turn.Lead system.shared.guarded (system.work number) (system.step number).shared.guarded ∧
      (system.step number).log =
        system.log ++ (system.work number).flatMap fun turn => turn.outcome.events := by
  have still {next : System policy κ ν ε ρ} (shared : next.shared = system.shared)
      (log : next.log = system.log) :
      Turn.Lead system.shared.guarded ([] : List (Turn policy κ ν ε ρ)) next.shared.guarded ∧
        next.log = system.log ++ [] := by
    rw [shared, log, List.append_nil]
    exact ⟨.nil _, rfl⟩
  rw [step, work]
  cases system.threads[number]? with
  | none => exact still rfl rfl
  | some thread =>
    dsimp only
    cases thread.stage with
    | idle =>
      obtain ⟨shared, log⟩ := system.enter_frame number thread
      exact still shared log
    | entered call =>
      obtain ⟨state, events⟩ := system.shared.perform_alone call
      obtain ⟨lead, logged⟩ := system.shared.guarded.serve_leads call.alone
      exact ⟨state ▸ lead, congrArg (system.log ++ ·) (events.trans logged)⟩
    | worked reply | leaving reply => exact still rfl rfl

/-- The turns of a schedule lead from the first to the last state of the guarded cache, and each
logs its part. -/
theorem works_lead (system : System policy κ ν ε ρ) (schedule : List Nat) :
    Turn.Lead system.shared.guarded (system.works schedule)
        (system.run schedule).shared.guarded ∧
      (system.run schedule).log =
        system.log ++ (system.works schedule).flatMap fun turn => turn.outcome.events := by
  induction schedule generalizing system with
  | nil => exact ⟨.nil _, (List.append_nil _).symm⟩
  | cons number rest ih =>
    obtain ⟨lead, logged⟩ := system.step_leads number
    obtain ⟨later, more⟩ := ih (system.step number)
    refine ⟨lead.append later, more.trans ?_⟩
    rw [logged, works, List.flatMap_append, List.append_assoc]

section Pending

variable {system next : System policy κ ν ε ρ} {start : Cache policy κ ν}
  {programs : List (List (SharedCall κ ν ε ρ))} {number : Nat} {thread renewed : Thread κ ν ε ρ}
  {done : List (Call κ ν ε ρ)}

omit [BEq ν] in
/-- A thread that holds the lock is waited for where its step took it. -/
theorem holding_setThread (bound : number < system.threads.length)
    (held : system.holder = some number) :
    (system.setThread number renewed).holding = renewed.stage :=
  holding_of_some held (List.getElem?_set_self bound)

omit [BEq ν] in
/-- The step of a thread that does not hold the lock is not waited for. -/
theorem holding_setThread_of_ne (free : system.holder ≠ some number) :
    (system.setThread number renewed).holding = system.holding := holding_of_set free rfl rfl

/-- A thread that begins a call takes the lock for it, waits, or leaves the guarded cache
alone. -/
theorem Replays.lockedCalls_enter (replays : system.Replays start programs)
    (found : system.threads[number]? = some thread) (idle : thread.stage = .idle)
    (calls : lockedCalls system.taken = done ++ system.holding.pending) :
    lockedCalls (system.enter number thread).taken =
      done ++ (system.enter number thread).holding.pending := by
  have joined {call : SharedCall κ ν ε ρ} {next : System policy κ ν ε ρ}
      (taken : next.taken = system.taken ++ [(number, call)])
      (pending : system.holding.pending ++
          (if call.needsLock then call.alone.call?.toList else []) =
        next.holding.pending) :
      lockedCalls next.taken = done ++ next.holding.pending := by
    rw [taken, lockedCalls_concat, calls, List.append_assoc, pending]
  rw [System.enter]
  cases thread.program with
  | nil => exact calls
  | cons call rest =>
    dsimp only
    by_cases needs : call.needsLock = true
    · rw [if_pos needs]
      cases free : system.holder with
      | some other => exact calls
      | none =>
        refine joined rfl ?_
        rw [holding_of_none free, if_pos needs, Option.isNone_none, if_pos rfl, holding_setThread]
        · rfl
        · exact (List.getElem?_eq_some_iff.mp found).1
        · rfl
    · rw [if_neg needs]
      refine joined rfl ?_
      rw [if_neg needs, List.append_nil, holding_setThread_of_ne]
      · rfl
      · change system.holder ≠ some number
        rw [ne_eq, ← replays.holds_iff found, idle]
        exact id

/-- A step turns what was pending into a turn, or a call that takes the lock into what is
pending. -/
theorem Replays.lockedCalls_step (replays : system.Replays start programs) (number : Nat)
    (calls : lockedCalls system.taken = done ++ system.holding.pending) :
    lockedCalls (system.step number).taken =
      done ++ (system.work number).map Turn.call ++ (system.step number).holding.pending := by
  have moved {next : System policy κ ν ε ρ} {worked : List (Call κ ν ε ρ)}
      (taken : next.taken = system.taken)
      (pending : system.holding.pending = worked ++ next.holding.pending) :
      lockedCalls next.taken = done ++ worked ++ next.holding.pending := by
    rw [taken, calls, pending, List.append_assoc]
  rw [System.step, System.work]
  cases found : system.threads[number]? with
  | none => exact moved rfl rfl
  | some thread =>
    have holds := replays.holds_iff found
    dsimp only
    cases stage : thread.stage with
    | idle =>
      refine (replays.lockedCalls_enter found stage calls).trans ?_
      exact congrArg (· ++ _) (List.append_nil done).symm
    | entered call =>
      rw [stage] at holds
      have held := holds.mp trivial
      refine moved rfl ?_
      rw [holding_of_some held found, stage, holding_setThread]
      · rw [List.map_map]
        exact ((List.append_nil _).trans (List.map_id _)).symm
      · exact (List.getElem?_eq_some_iff.mp found).1
      · exact held
    | worked reply =>
      rw [stage] at holds
      refine moved rfl ?_
      rw [holding_of_some (holds.mp trivial) found, stage]
      rfl
    | leaving reply =>
      rw [stage] at holds
      refine moved rfl ?_
      rw [holding_setThread_of_ne holds.mpr]
      rfl

variable [EquivBEq κ] [LawfulHashable κ]

/-- At every moment of a schedule the calls that got hold of the guarded cache are those of its
turns, and the one that is pending. -/
theorem Replays.lockedCalls_run (replays : system.Replays start programs) (schedule : List Nat)
    (calls : lockedCalls system.taken = done ++ system.holding.pending) :
    lockedCalls (system.run schedule).taken =
      done ++ (system.works schedule).map Turn.call ++
        (system.run schedule).holding.pending := by
  induction schedule generalizing system done with
  | nil => exact calls.trans (congrArg (· ++ _) (List.append_nil done).symm)
  | cons number rest ih =>
    rw [works, List.map_append, ← List.append_assoc done]
    exact ih (replays.step number) (replays.lockedCalls_step number calls)

end Pending

end System

variable [BEq ν] [EquivBEq κ] [LawfulHashable κ]

/-- After every run of a cache from its construction its counters, contents and log account for
each other and for the calls of the run, pairs that are stored together being stored one by one.
The same holds at every moment of every schedule of threads that share a cache, for the calls
that were carried out by then; when nobody holds the lock those are all calls that took it, apart
from those that only ask for metrics.
Storing pairs through the contract of bounded maps is storing them together. -/
theorem run_accounted :
    (∀ (config : CacheConfig) (calls : List (Call κ ν ε ρ)),
      let cache : Cache policy κ ν := .ofConfig config
      let outcome := cache.run calls
      Turn.Accounted outcome.state.metrics.core outcome.state.size outcome.events
        (cache.turns (calls.flatMap Call.singly))) ∧
    (∀ (config : SharedConfig) (programs : List (List (SharedCall κ ν ε ρ)))
        (schedule : List Nat),
      let start := System.ofPrograms (.ofConfig config : SharedCache policy κ ν) programs
      let system := start.run schedule
      Turn.Accounted system.shared.metrics.core system.shared.size system.log
          (start.works schedule) ∧
        (system.holder = none →
          (start.works schedule).map Turn.call = lockedCalls system.taken)) ∧
    ∀ (cache : Cache policy κ ν) (pairs : List (κ × ν)),
      BoundedMap.putAll cache pairs = cache.extend pairs := by
  refine ⟨?alone, ?shared, ?pairs⟩
  case alone =>
    intro config calls cache outcome
    obtain ⟨state, events⟩ := cache.run_flatMap_singly calls
    obtain ⟨lead, logged⟩ := cache.turns_lead (calls.flatMap Call.singly)
    rw [state] at lead
    rw [show outcome.events = _ from events.symm.trans logged]
    refine lead.accounted fun turn member => ?_
    have listed : turn.call ∈ calls.flatMap Call.singly := by
      rw [← cache.map_call_turns (calls.flatMap Call.singly)]
      exact List.mem_map_of_mem member
    obtain ⟨call, _, part⟩ := List.mem_flatMap.mp listed
    exact Call.single_of_mem_singly part
  case shared =>
    intro config programs schedule start system
    obtain ⟨lead, logged⟩ := start.works_lead schedule
    have accounted := lead.accounted (start.single_of_mem_works schedule)
    have log : system.log = _ := logged.trans (List.nil_append _)
    have replays : start.Replays (.ofCapacity config.base.capacity) programs :=
      System.replays_ofPrograms config programs
    refine ⟨log ▸ accounted, fun free => ?_⟩
    have calls : lockedCalls system.taken = [] ++ _ ++ system.holding.pending :=
      replays.lockedCalls_run schedule rfl
    rw [calls, System.holding_of_none free]
    exact (List.append_nil _).symm
  case pairs =>
    intro cache pairs
    induction pairs generalizing cache with
    | nil => rfl
    | cons pair rest ih =>
      exact congrArg (Outcome.andThen (cache.put pair.1 pair.2)) (funext fun _ => funext ih)

/-- With room for two entries: the third key evicts one, the other two are cleared, and one is
removed of the two stored after that. -/
theorem run_accounted_cleared :
    let cache : Cache .lfu FoldedKey Nat := .ofConfig ⟨⟨2, by decide⟩, 16, .threeQuarters⟩
    let calls : List (Call FoldedKey Nat Unit Unit) :=
      [.put ⟨.text "a"⟩ 1, .get ⟨.text "A"⟩, .put ⟨.text "b"⟩ 2, .push ⟨.text "c"⟩ 3, .clear,
        .extend [(⟨.text "d"⟩, 4), (⟨.text "e"⟩, 5)], .remove ⟨.text "D"⟩]
    let outcome := cache.run calls
    Turn.Accounted outcome.state.metrics.core outcome.state.size outcome.events
      (cache.turns (calls.flatMap Call.singly)) ∧
    outcome.state.size = 1 ∧ outcome.events = [.evicted .lfu, .clearing .lfu 2] :=
  ⟨run_accounted.1 _ _,
    ((Cache.represents_ofConfig _).run _).state.size_eq.trans (by cbv),
    ((Cache.represents_ofConfig _).run _).events.trans (by cbv)⟩

end EvictionCache
