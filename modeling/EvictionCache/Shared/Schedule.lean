import EvictionCache.Shared.Call

/-!
# Schedules of threads on a shared cache

Several threads each carry out a program of calls on one shared cache. A call is not one step:
its thread takes the lock, carries the call out on the guarded cache, gives the lock back, and
returns with the answer, and between any two of these steps other threads may take theirs. The
capacity alone is read without the lock. A schedule names, step by step, the thread that goes on
next; a thread that would have to wait for the lock spends its step waiting.

`System.taken` records the calls in the order in which they got hold of the cache.
-/
namespace EvictionCache

/-- Whether a call works on the guarded cache. -/
def SharedCall.needsLock {κ ν ε ρ : Type} : SharedCall κ ν ε ρ → Bool
  | capacity => false
  | _ => true

/-- Where a thread stands within a call. -/
inductive CallStage (κ ν ε ρ : Type) where
  /-- Between two calls. -/
  | idle
  /-- It holds the lock and has not yet worked on the cache. -/
  | entered (call : SharedCall κ ν ε ρ)
  /-- It holds the lock and has worked on the cache. -/
  | worked (reply : Reply κ ν ε ρ)
  /-- It has given the lock back and not yet returned. -/
  | leaving (reply : Reply κ ν ε ρ)

/-- A thread with its calls to come and the answers it has got. -/
structure Thread (κ ν ε ρ : Type) where
  /-- Where it stands within a call. -/
  stage : CallStage κ ν ε ρ
  /-- The calls it has not yet begun. -/
  program : List (SharedCall κ ν ε ρ)
  /-- The answers it was given, in the order of its calls. -/
  replies : List (Reply κ ν ε ρ)

/-- A thread before its first call. -/
def Thread.ofProgram {κ ν ε ρ : Type} (program : List (SharedCall κ ν ε ρ)) :
    Thread κ ν ε ρ :=
  ⟨.idle, program, []⟩

/-- A shared cache with the threads that use it. -/
structure System (policy : Policy) (κ ν ε ρ : Type) [BEq κ] [Hashable κ] where
  /-- The cache. -/
  shared : SharedCache policy κ ν
  /-- The number of the thread that holds the lock. -/
  holder : Option Nat
  /-- The threads by number. -/
  threads : List (Thread κ ν ε ρ)
  /-- The calls that got hold of the cache, with the numbers of their threads. -/
  taken : List (Nat × SharedCall κ ν ε ρ)
  /-- The events that they caused. -/
  log : List Event

namespace System

variable {policy : Policy} {κ ν ε ρ : Type} [BEq κ] [Hashable κ]

/-- Threads before their first calls on a cache that nobody holds. -/
def ofPrograms (shared : SharedCache policy κ ν)
    (programs : List (List (SharedCall κ ν ε ρ))) : System policy κ ν ε ρ :=
  ⟨shared, none, programs.map .ofProgram, [], []⟩

/-- Replaces a thread. -/
def setThread (system : System policy κ ν ε ρ) (number : Nat) (thread : Thread κ ν ε ρ) :
    System policy κ ν ε ρ :=
  { system with threads := system.threads.set number thread }

/-- A thread begins its next call: it takes the lock, or waits if another thread holds it, or
reads what needs no lock. -/
def enter (system : System policy κ ν ε ρ) (number : Nat) (thread : Thread κ ν ε ρ) :
    System policy κ ν ε ρ :=
  match thread.program with
  | [] => system
  | call :: rest =>
    let taken := system.taken ++ [(number, call)]
    if call.needsLock then
      if system.holder.isNone then
        { system with holder := some number, taken }.setThread number
          { thread with stage := .entered call, program := rest }
      else system
    else
      { system with taken }.setThread number
        { thread with stage := .leaving (system.shared.perform call).answer, program := rest }

/-- One step of a thread; without such a thread nothing happens. -/
def step (system : System policy κ ν ε ρ) (number : Nat) : System policy κ ν ε ρ :=
  match system.threads[number]? with
  | none => system
  | some thread =>
    match thread.stage with
    | .idle => system.enter number thread
    | .entered call =>
      let outcome := system.shared.perform call
      { system with shared := outcome.state, log := system.log ++ outcome.events }.setThread
        number { thread with stage := .worked outcome.answer }
    | .worked reply =>
      { system with holder := none }.setThread number { thread with stage := .leaving reply }
    | .leaving reply =>
      system.setThread number { thread with stage := .idle, replies := thread.replies ++ [reply] }

/-- The steps of a schedule, one after another. -/
def run (system : System policy κ ν ε ρ) (schedule : List Nat) : System policy κ ν ε ρ :=
  schedule.foldl step system

/-- Every thread has returned from its last call. -/
def Finished (system : System policy κ ν ε ρ) : Prop :=
  ∀ thread ∈ system.threads, thread.stage = .idle ∧ thread.program = []

end System

end EvictionCache
