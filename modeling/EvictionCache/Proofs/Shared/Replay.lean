import EvictionCache.Proofs.Cache.Turns
import EvictionCache.Proofs.Shared.Guards
import EvictionCache.Shared.Schedule

/-!
# Schedules replayed one call after another

The calls that got hold of the cache are replayed, in that order, as requests to a cache of one
owner (`System.serial`). A call takes its turn when its thread takes the lock but works on the cache
only later, so a system is compared with its replay as it will be once the thread that holds the
lock has done its work (`System.settled`). While one thread holds the lock no other works on the
cache, so nothing can come between a turn and its work but calls that need no lock, and those
change nothing.
-/
namespace EvictionCache

variable {policy : Policy} {κ ν ε ρ : Type}

/-- The calls of one thread among those that got hold of the cache. -/
def callsOf (number : Nat) (taken : List (Nat × SharedCall κ ν ε ρ)) :
    List (SharedCall κ ν ε ρ) :=
  (taken.filter fun turn => turn.1 = number).map Prod.snd

/-- The answers to the calls of one thread among the answers to all. -/
def repliesTo (number : Nat) (taken : List (Nat × SharedCall κ ν ε ρ))
    (answers : List (Reply κ ν ε ρ)) : List (Reply κ ν ε ρ) :=
  ((taken.zip answers).filter fun answered => answered.1.1 = number).map Prod.snd

/-- A turn adds a call to those of its own thread. -/
theorem callsOf_concat (number other : Nat) (taken : List (Nat × SharedCall κ ν ε ρ))
    (call : SharedCall κ ν ε ρ) :
    callsOf number (taken ++ [(other, call)]) =
      callsOf number taken ++ if other = number then [call] else [] := by
  rw [callsOf, callsOf, List.filter_append, List.map_append]
  split
  · next same => rw [List.filter_cons_of_pos (by simpa using same)]; rfl
  · next apart => rw [List.filter_cons_of_neg (by simpa using apart)]; rfl

/-- An answer adds to those of the thread whose turn it was. -/
theorem repliesTo_concat (number other : Nat) {taken : List (Nat × SharedCall κ ν ε ρ)}
    {answers : List (Reply κ ν ε ρ)} (same : taken.length = answers.length)
    (call : SharedCall κ ν ε ρ) (reply : Reply κ ν ε ρ) :
    repliesTo number (taken ++ [(other, call)]) (answers ++ [reply]) =
      repliesTo number taken answers ++ if other = number then [reply] else [] := by
  rw [repliesTo, repliesTo, List.zip_append same, List.filter_append, List.map_append]
  split
  · next same => rw [List.zip_cons_cons, List.filter_cons_of_pos (by simpa using same)]; rfl
  · next apart => rw [List.zip_cons_cons, List.filter_cons_of_neg (by simpa using apart)]; rfl

variable [BEq κ] [Hashable κ]

namespace CallStage

/-- Whether a thread at this stage holds the lock. -/
def Holds : CallStage κ ν ε ρ → Prop
  | entered _ | worked _ => True
  | idle | leaving _ => False

/-- What is still to come of a call: its work, unless it was done, and its answer. -/
def settle (stage : CallStage κ ν ε ρ) (shared : SharedCache policy κ ν) :
    Outcome (SharedCache policy κ ν) (List (Reply κ ν ε ρ)) :=
  match stage with
  | idle => .silent [] shared
  | entered call => (shared.perform call).map fun reply => [reply]
  | worked reply | leaving reply => .silent [reply] shared

/-- Settling a call does not change the copy of the capacity. -/
theorem limit_settle (stage : CallStage κ ν ε ρ) (shared : SharedCache policy κ ν) :
    (stage.settle shared).state.limit = shared.limit := by
  cases stage with
  | entered call => exact shared.limit_perform call
  | idle | worked | leaving => rfl

/-- A thread that does not hold the lock does not depend on the cache. -/
theorem answer_settle {stage : CallStage κ ν ε ρ} (free : ¬ stage.Holds)
    (shared other : SharedCache policy κ ν) :
    (stage.settle shared).answer = (stage.settle other).answer := by
  cases stage with
  | entered | worked => exact absurd trivial free
  | idle | leaving => rfl

end CallStage

namespace System

/-- Where the thread that holds the lock stands. -/
def holding (system : System policy κ ν ε ρ) : CallStage κ ν ε ρ :=
  match system.holder.bind (system.threads[·]?) with
  | none => .idle
  | some thread => thread.stage

/-- The cache once the thread that holds the lock has done its work, and the events of that. -/
def settled (system : System policy κ ν ε ρ) :
    Outcome (SharedCache policy κ ν) (List (Reply κ ν ε ρ)) :=
  system.holding.settle system.shared

/-- The calls that got hold of the cache, one after another on a cache of one owner. -/
def serial [BEq ν] (system : System policy κ ν ε ρ) (start : Cache policy κ ν) :
    Outcome (Cache policy κ ν) (List (Reply κ ν ε ρ)) :=
  start.serveAll (system.taken.map fun turn => turn.2.alone)

/-- A thread holds the lock when the system says so, has begun its calls in the order of its
program, and gets the answers that are there for it. -/
structure Accounts (system : System policy κ ν ε ρ) (answers : List (Reply κ ν ε ρ))
    (number : Nat) (program : List (SharedCall κ ν ε ρ)) (thread : Thread κ ν ε ρ) : Prop where
  /-- The stage of the thread and the lock go together. -/
  holds : thread.stage.Holds ↔ system.holder = some number
  /-- The calls that it has begun and those to come are its program. -/
  program : callsOf number system.taken ++ thread.program = program
  /-- It got or will get the answers to its calls. -/
  replies : thread.replies ++ (thread.stage.settle system.shared).answer =
    repliesTo number system.taken answers

/-- A system whose threads get what a serial replay from some cache would give them. -/
structure Replays [BEq ν] (system : System policy κ ν ε ρ) (start : Cache policy κ ν)
    (programs : List (List (SharedCall κ ν ε ρ))) : Prop where
  /-- There is a thread for every program. -/
  length : system.threads.length = programs.length
  /-- Every thread is accounted for. -/
  accounts : ∀ number thread program, system.threads[number]? = some thread →
    programs[number]? = some program →
      system.Accounts (system.serial start).answer number program thread
  /-- Only a thread holds the lock. -/
  holder : ∀ number, system.holder = some number → number < programs.length
  /-- Only threads take turns. -/
  turns : ∀ turn ∈ system.taken, turn.1 < programs.length
  /-- Once the thread that holds the lock is done, the cache is the one of the replay. -/
  guards : system.settled.state.Guards (system.serial start).state
  /-- So is the log. -/
  log : system.log ++ system.settled.events = (system.serial start).events

section Holding

variable {system : System policy κ ν ε ρ} {number : Nat} {thread : Thread κ ν ε ρ}

/-- Nobody is to be waited for when the lock is free. -/
theorem holding_of_none (free : system.holder = none) : system.holding = .idle := by
  rw [holding, free]
  rfl

/-- The thread that holds the lock is waited for. -/
theorem holding_of_some (held : system.holder = some number)
    (found : system.threads[number]? = some thread) : system.holding = thread.stage := by
  rw [holding, held, Option.bind_some, found]

/-- A thread that does not hold the lock is not waited for. -/
theorem holding_of_set {next : System policy κ ν ε ρ} (free : system.holder ≠ some number)
    (holder : next.holder = system.holder) {renewed : Thread κ ν ε ρ}
    (threads : next.threads = system.threads.set number renewed) :
    next.holding = system.holding := by
  rw [holding, holding, holder, threads]
  cases held : system.holder with
  | none => rfl
  | some other =>
    have apart : number ≠ other := fun same => free (same ▸ held)
    simp only [Option.bind_some]
    rw [List.getElem?_set_ne apart]

end Holding

/-- The latest turn is that of the thread which took it. -/
theorem turn_cases {system next : System policy κ ν ε ρ} {number : Nat}
    {call : SharedCall κ ν ε ρ} (taken : next.taken = system.taken ++ [(number, call)])
    {turn : Nat × SharedCall κ ν ε ρ} (member : turn ∈ next.taken) :
    turn ∈ system.taken ∨ turn.1 = number := by
  rw [taken] at member
  rcases List.mem_append.mp member with before | now
  · exact .inl before
  · exact .inr (congrArg Prod.fst (List.mem_singleton.mp now))

namespace Accounts

variable {system next : System policy κ ν ε ρ} {answers later : List (Reply κ ν ε ρ)}
  {number : Nat} {program : List (SharedCall κ ν ε ρ)} {thread : Thread κ ν ε ρ}

/-- A thread is still accounted for when another has gone on: it neither took a turn nor got or
gave back the lock, and the cache did not change unless this thread does not hold the lock. -/
theorem frame (accounts : system.Accounts answers number program thread)
    (holder : next.holder = some number ↔ system.holder = some number)
    (calls : callsOf number next.taken = callsOf number system.taken)
    (replies : repliesTo number next.taken later = repliesTo number system.taken answers)
    (shared : system.holder ≠ some number ∨ next.shared = system.shared) :
    next.Accounts later number program thread where
  holds := accounts.holds.trans holder.symm
  program := calls ▸ accounts.program
  replies := by
    have settled : (thread.stage.settle next.shared).answer =
        (thread.stage.settle system.shared).answer := by
      rcases shared with free | same
      · exact CallStage.answer_settle (fun holds => free (accounts.holds.mp holds)) _ _
      · rw [same]
    rw [settled, replies]
    exact accounts.replies

/-- A thread that takes a turn is accounted for with one more call and one more answer. -/
theorem turn (accounts : system.Accounts answers number program thread)
    {call : SharedCall κ ν ε ρ} {rest : List (SharedCall κ ν ε ρ)} {reply : Reply κ ν ε ρ}
    {stage : CallStage κ ν ε ρ} (idle : thread.stage = .idle)
    (begun : thread.program = call :: rest) (same : system.taken.length = answers.length)
    (taken : next.taken = system.taken ++ [(number, call)])
    (holds : stage.Holds ↔ next.holder = some number)
    (answer : (stage.settle next.shared).answer = [reply]) :
    next.Accounts (answers ++ [reply]) number program
      { thread with stage, program := rest } where
  holds := holds
  program := by
    rw [taken, callsOf_concat, if_pos rfl, List.append_assoc, List.singleton_append, ← begun]
    exact accounts.program
  replies := by
    have before := accounts.replies
    rw [idle, show (CallStage.idle.settle system.shared).answer = [] from rfl,
      List.append_nil] at before
    rw [taken, repliesTo_concat number number same, if_pos rfl, answer, before]

end Accounts

namespace Replays

variable [BEq ν] {system next : System policy κ ν ε ρ} {start : Cache policy κ ν}
  {programs : List (List (SharedCall κ ν ε ρ))} {number : Nat} {thread : Thread κ ν ε ρ}
  {call : SharedCall κ ν ε ρ} {rest : List (SharedCall κ ν ε ρ)}

/-- There is a program for every thread. -/
theorem number_lt (replays : system.Replays start programs)
    (found : system.threads[number]? = some thread) : number < programs.length := by
  rw [← replays.length]
  exact (List.getElem?_eq_some_iff.mp found).1

/-- One thread goes on while all others stay accounted for. -/
theorem advance (replays : system.Replays start programs)
    (found : system.threads[number]? = some thread) {renewed : Thread κ ν ε ρ}
    (threads : next.threads = system.threads.set number renewed)
    (mine : ∀ program, system.Accounts (system.serial start).answer number program thread →
      next.Accounts (next.serial start).answer number program renewed)
    (others : ∀ other program another, other ≠ number →
      system.Accounts (system.serial start).answer other program another →
        next.Accounts (next.serial start).answer other program another)
    (holder : ∀ other, next.holder = some other → system.holder = some other ∨ other = number)
    (turns : ∀ turn ∈ next.taken, turn ∈ system.taken ∨ turn.1 = number)
    (guards : next.settled.state.Guards (next.serial start).state)
    (log : next.log ++ next.settled.events = (next.serial start).events) :
    next.Replays start programs := by
  have bound := replays.number_lt found
  refine ⟨?_, ?_, ?_, ?_, guards, log⟩
  · rw [threads, List.length_set, replays.length]
  · intro other another program present planned
    rw [threads] at present
    by_cases same : number = other
    · subst same
      rw [List.getElem?_set_self (replays.length ▸ bound)] at present
      obtain rfl := Option.some.inj present
      exact mine program (replays.accounts number thread program found planned)
    · rw [List.getElem?_set_ne same] at present
      exact others other program another (Ne.symm same)
        (replays.accounts other another program present planned)
  · intro other held
    rcases holder other held with before | rfl
    · exact replays.holder other before
    · exact bound
  · intro turn member
    rcases turns turn member with before | same
    · exact replays.turns turn before
    · exact same ▸ bound

/-- The stage of a thread and the lock go together. -/
theorem holds_iff (replays : system.Replays start programs)
    (found : system.threads[number]? = some thread) :
    thread.stage.Holds ↔ system.holder = some number := by
  have bound := replays.number_lt found
  exact (replays.accounts number thread _ found (List.getElem?_eq_getElem bound)).holds

/-- There is one answer for each turn. -/
theorem length_answer (system : System policy κ ν ε ρ) (start : Cache policy κ ν) :
    system.taken.length = (system.serial start).answer.length := by
  rw [serial, Cache.length_serveAll, List.length_map]

/-- Without a turn the replay stays as it is. -/
theorem serial_of_taken (taken : next.taken = system.taken) :
    next.serial start = system.serial start := by
  rw [serial, serial, taken]

/-- A turn continues the replay by its call. -/
theorem serial_concat (taken : next.taken = system.taken ++ [(number, call)]) :
    next.serial start = (system.serial start).andThen fun replies after =>
      (after.serve call.alone).map fun reply => replies ++ [reply] := by
  rw [serial, taken, List.map_append, List.map_singleton, Cache.serveAll_concat]
  rfl

/-- A thread that is not accounted for by the turn of another stays accounted for. -/
theorem frame_turn {other : Nat} {program : List (SharedCall κ ν ε ρ)}
    {another : Thread κ ν ε ρ} (apart : other ≠ number)
    (accounts : system.Accounts (system.serial start).answer other program another)
    (taken : next.taken = system.taken ++ [(number, call)])
    (holder : next.holder = some other ↔ system.holder = some other)
    (shared : next.shared = system.shared) :
    next.Accounts (next.serial start).answer other program another := by
  refine accounts.frame holder ?_ ?_ (.inr shared)
  · rw [taken, callsOf_concat, if_neg (Ne.symm apart), List.append_nil]
  · rw [serial_concat taken, taken]
    change repliesTo other _ ((system.serial start).answer ++ [_]) = _
    rw [repliesTo_concat other number (length_answer system start), if_neg (Ne.symm apart),
      List.append_nil]

/-- A thread that holds the lock works on the cache. -/
theorem work (replays : system.Replays start programs)
    (found : system.threads[number]? = some thread) (entered : thread.stage = .entered call)
    (threads : next.threads = system.threads.set number
      { thread with stage := .worked (system.shared.perform call).answer })
    (holder : next.holder = system.holder) (taken : next.taken = system.taken)
    (shared : next.shared = (system.shared.perform call).state)
    (log : next.log = system.log ++ (system.shared.perform call).events) :
    next.Replays start programs := by
  have held : system.holder = some number := by
    rw [← replays.holds_iff found, entered]
    exact trivial
  have bound : number < system.threads.length := (List.getElem?_eq_some_iff.mp found).1
  -- The replay did this call when the lock was taken, so it has nothing left to do now.
  have before : system.holding = .entered call := (holding_of_some held found).trans entered
  have after : next.holding = .worked (system.shared.perform call).answer := by
    rw [holding_of_some (holder.trans held) (by rw [threads, List.getElem?_set_self bound])]
  have serial : next.serial start = system.serial start := serial_of_taken taken
  apply replays.advance found threads
  · intro program accounts
    have replies := accounts.replies
    rw [entered] at replies
    refine ⟨iff_of_true trivial (holder.trans held), taken ▸ accounts.program, ?_⟩
    rw [serial, taken]
    exact replies
  · intro other another program apart accounts
    refine accounts.frame (by rw [holder]) (by rw [taken]) (by rw [serial, taken]) (.inl ?_)
    rw [held]
    exact fun same => apart (Option.some.inj same).symm
  · intro other now
    exact .inl (holder ▸ now)
  · intro turn member
    exact .inl (taken ▸ member)
  · have guards := replays.guards
    rw [settled, before] at guards
    rw [settled, after, shared, serial]
    exact guards
  · have events := replays.log
    rw [settled, before] at events
    rw [settled, after, log, serial, ← events]
    exact List.append_nil _

/-- A thread that has worked on the cache gives the lock back. -/
theorem unlock (replays : system.Replays start programs) {reply : Reply κ ν ε ρ}
    (found : system.threads[number]? = some thread) (worked : thread.stage = .worked reply)
    (threads : next.threads = system.threads.set number { thread with stage := .leaving reply })
    (holder : next.holder = none) (taken : next.taken = system.taken)
    (shared : next.shared = system.shared) (log : next.log = system.log) :
    next.Replays start programs := by
  have held : system.holder = some number := by
    rw [← replays.holds_iff found, worked]
    exact trivial
  have before : system.holding = .worked reply := (holding_of_some held found).trans worked
  have serial : next.serial start = system.serial start := serial_of_taken taken
  apply replays.advance found threads
  · intro program accounts
    have replies := accounts.replies
    rw [worked] at replies
    refine ⟨iff_of_false id (by rw [holder]; exact fun held => nomatch held),
      taken ▸ accounts.program, ?_⟩
    rw [serial, taken]
    exact replies
  · intro other another program apart accounts
    refine accounts.frame ?_ (by rw [taken]) (by rw [serial, taken]) (.inr shared)
    rw [holder, held]
    exact iff_of_false (fun none => nomatch none) fun same => apart (Option.some.inj same).symm
  · intro other now
    rw [holder] at now
    cases now
  · intro turn member
    exact .inl (taken ▸ member)
  · have guards := replays.guards
    rw [settled, before] at guards
    rw [settled, holding_of_none holder, shared, serial]
    exact guards
  · have events := replays.log
    rw [settled, before] at events
    rw [settled, holding_of_none holder, log, serial]
    exact events

/-- A thread that has given the lock back returns with its answer. -/
theorem leave (replays : system.Replays start programs) {reply : Reply κ ν ε ρ}
    (found : system.threads[number]? = some thread) (leaving : thread.stage = .leaving reply)
    (threads : next.threads = system.threads.set number
      { thread with stage := .idle, replies := thread.replies ++ [reply] })
    (holder : next.holder = system.holder) (taken : next.taken = system.taken)
    (shared : next.shared = system.shared) (log : next.log = system.log) :
    next.Replays start programs := by
  have free : system.holder ≠ some number := by
    rw [ne_eq, ← replays.holds_iff found, leaving]
    exact id
  have waiting := holding_of_set free holder threads
  have serial : next.serial start = system.serial start := serial_of_taken taken
  apply replays.advance found threads
  · intro program accounts
    have replies := accounts.replies
    rw [leaving] at replies
    refine ⟨by rw [holder]; exact iff_of_false id free, taken ▸ accounts.program, ?_⟩
    rw [serial, taken]
    exact (List.append_nil _).trans replies
  · intro other another program apart accounts
    exact accounts.frame (by rw [holder]) (by rw [taken]) (by rw [serial, taken]) (.inr shared)
  · intro other now
    exact .inl (holder ▸ now)
  · intro turn member
    exact .inl (taken ▸ member)
  · rw [settled, waiting, shared, serial]
    exact replays.guards
  · rw [settled, waiting, shared, log, serial]
    exact replays.log

/-- A thread reads the capacity, for which it needs no lock. -/
theorem read (replays : system.Replays start programs)
    (found : system.threads[number]? = some thread) (idle : thread.stage = .idle)
    (begun : thread.program = .capacity :: rest)
    (threads : next.threads = system.threads.set number
      { thread with
        stage := .leaving (system.shared.perform .capacity).answer
        program := rest })
    (holder : next.holder = system.holder)
    (taken : next.taken = system.taken ++ [(number, .capacity)])
    (shared : next.shared = system.shared) (log : next.log = system.log) :
    next.Replays start programs := by
  have continued : next.serial start = _ := serial_concat taken
  have free : system.holder ≠ some number := by
    rw [ne_eq, ← replays.holds_iff found, idle]
    exact id
  have waiting := holding_of_set free holder threads
  have limit : system.shared.limit = (system.serial start).state.config.capacity := by
    rw [← replays.guards.limit]
    exact (system.holding.limit_settle system.shared).symm
  apply replays.advance found threads
  · intro program accounts
    rw [continued]
    refine accounts.turn idle begun (length_answer system start) taken ?_ ?_
    · rw [holder]
      exact iff_of_false id free
    · exact congrArg (fun capacity => [Reply.number capacity.entries]) limit
  · intro other another program apart accounts
    exact frame_turn apart accounts taken (by rw [holder]) shared
  · intro other held
    exact .inl (holder ▸ held)
  · intro turn member
    exact turn_cases taken member
  · rw [settled, waiting, shared, continued]
    exact replays.guards
  · rw [settled, waiting, shared, log, continued]
    exact replays.log.trans (List.append_nil _).symm

/-- While the lock is free the cache and the log are those of the replay. -/
theorem of_free (replays : system.Replays start programs) (free : system.holder = none) :
    system.shared.Guards (system.serial start).state ∧
      system.log = (system.serial start).events := by
  have guards := replays.guards
  have events := replays.log
  rw [settled, holding_of_none free] at guards events
  exact ⟨guards, (List.append_nil _).symm.trans events⟩

/-- Nobody holds the lock after all threads have returned from their last calls. -/
theorem holder_of_finished (replays : system.Replays start programs)
    (finished : system.Finished) : system.holder = none := by
  cases held : system.holder with
  | none => rfl
  | some number =>
    have bound : number < system.threads.length := by
      rw [replays.length]
      exact replays.holder number held
    have found := List.getElem?_eq_getElem bound
    have holds := (replays.holds_iff found).mpr held
    rw [(finished _ (List.getElem_mem bound)).1] at holds
    exact absurd holds id

/-- What a thread has got is the beginning of what the replay gives it, and all of it between
two calls. -/
theorem exists_thread (replays : system.Replays start programs) {number : Nat}
    {program : List (SharedCall κ ν ε ρ)} (planned : programs[number]? = some program) :
    ∃ thread, system.threads[number]? = some thread ∧
      callsOf number system.taken ++ thread.program = program ∧
      thread.replies <+: repliesTo number system.taken (system.serial start).answer ∧
      (thread.stage = .idle →
        thread.replies = repliesTo number system.taken (system.serial start).answer) := by
  have bound : number < system.threads.length := by
    rw [replays.length]
    exact (List.getElem?_eq_some_iff.mp planned).1
  have found := List.getElem?_eq_getElem bound
  have accounts := replays.accounts number _ program found planned
  refine ⟨_, found, accounts.program, ⟨_, accounts.replies⟩, fun idle => ?_⟩
  have replies := accounts.replies
  rw [idle] at replies
  exact (List.append_nil _).symm.trans replies

variable [EquivBEq κ] [LawfulHashable κ]

/-- A thread takes the lock for its next call. -/
theorem lock (replays : system.Replays start programs)
    (found : system.threads[number]? = some thread) (idle : thread.stage = .idle)
    (begun : thread.program = call :: rest) (free : system.holder = none)
    (threads : next.threads =
      system.threads.set number { thread with stage := .entered call, program := rest })
    (holder : next.holder = some number) (taken : next.taken = system.taken ++ [(number, call)])
    (shared : next.shared = system.shared) (log : next.log = system.log) :
    next.Replays start programs := by
  have guards := replays.guards
  have events := replays.log
  rw [settled, holding_of_none free] at guards events
  -- The replay does the call now; the cache will when the thread has done its work.
  have matching := SharedCache.Guards.perform guards call
  have continued : next.serial start = _ := serial_concat taken
  have bound : number < system.threads.length := (List.getElem?_eq_some_iff.mp found).1
  have waiting : next.holding = .entered call := by
    rw [holding_of_some holder (by rw [threads, List.getElem?_set_self bound])]
  apply replays.advance found threads
  · intro program accounts
    rw [continued]
    refine accounts.turn idle begun (length_answer system start) taken
      (iff_of_true trivial holder) ?_
    rw [shared]
    exact congrArg (fun reply => [reply]) matching.answer
  · intro other another program apart accounts
    refine frame_turn apart accounts taken ?_ shared
    rw [holder, free]
    exact iff_of_false (fun same => apart (Option.some.inj same).symm) (fun none => nomatch none)
  · intro other held
    exact .inr (Option.some.inj (held.symm.trans holder))
  · intro turn member
    exact turn_cases taken member
  · rw [settled, waiting, shared, continued]
    exact matching.state
  · rw [settled, waiting, shared, log, continued]
    have quiet : system.log = (system.serial start).events :=
      (List.append_nil _).symm.trans events
    rw [quiet]
    exact congrArg _ matching.events

/-- A thread begins its next call, or waits. -/
theorem enter (replays : system.Replays start programs)
    (found : system.threads[number]? = some thread) (idle : thread.stage = .idle) :
    (system.enter number thread).Replays start programs := by
  cases begun : thread.program with
  | nil =>
    rw [System.enter, begun]
    exact replays
  | cons call rest =>
    rw [System.enter, begun]
    by_cases needs : call.needsLock = true
    · cases free : system.holder with
      | none =>
        simp only [needs, if_true, Option.isNone_none]
        exact replays.lock found idle begun free rfl rfl rfl rfl rfl
      | some other =>
        simp only [needs, if_true, Option.isNone_some, Bool.false_eq_true, if_false]
        exact replays
    · obtain rfl : call = .capacity := by
        cases call <;> first | rfl | exact absurd rfl needs
      exact replays.read found idle begun rfl rfl rfl rfl rfl

/-- Every step keeps a system in step with its replay. -/
theorem step (replays : system.Replays start programs) (number : Nat) :
    (system.step number).Replays start programs := by
  rw [System.step]
  cases found : system.threads[number]? with
  | none => exact replays
  | some thread =>
    dsimp only
    cases stage : thread.stage with
    | idle => exact replays.enter found stage
    | entered call => exact replays.work found stage rfl rfl rfl rfl rfl
    | worked reply => exact replays.unlock found stage rfl rfl rfl rfl rfl
    | leaving reply => exact replays.leave found stage rfl rfl rfl rfl rfl

/-- Every schedule keeps a system in step with its replay. -/
theorem run (replays : system.Replays start programs) (schedule : List Nat) :
    (system.run schedule).Replays start programs := by
  induction schedule generalizing system with
  | nil => exact replays
  | cons number rest ih => exact ih (replays.step number)

end Replays

/-- Before the first call there is nothing to replay. -/
theorem replays_ofPrograms [BEq ν] [EquivBEq κ] [LawfulHashable κ] (config : SharedConfig)
    (programs : List (List (SharedCall κ ν ε ρ))) :
    (ofPrograms (.ofConfig config : SharedCache policy κ ν) programs).Replays
      (.ofCapacity config.base.capacity) programs where
  length := List.length_map _
  accounts number thread program found planned := by
    rw [show (ofPrograms (.ofConfig config : SharedCache policy κ ν) programs).threads =
      programs.map .ofProgram from rfl, List.getElem?_map, planned] at found
    obtain rfl := Option.some.inj found
    exact ⟨iff_of_false id (fun held => nomatch held), rfl, rfl⟩
  holder _ held := nomatch held
  turns _ member := absurd member List.not_mem_nil
  guards := SharedCache.guards_ofConfig config
  log := rfl

end System

end EvictionCache
