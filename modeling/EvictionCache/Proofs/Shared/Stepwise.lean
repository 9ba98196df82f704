import EvictionCache.Proofs.Cache.Coherence
import EvictionCache.Proofs.Shared.Conservation
import EvictionCache.Proofs.Store.Values
import Mathlib

/-!
# Closures one step at a time

In a schedule of calls a thread does its work on the cache in one step. A closure is code of the
caller, though. It may read and write the value any number of times before it finishes or fails,
and other threads take steps in between. Here it runs one step at a time on the value in its
slot (`Stepwise`): the access comes before its first step, and after its last step, finished or
failed, nothing is left to do but to give the lock back.

A system whose closures run one step at a time is compared with one whose calls do their work at
once by letting the closure at work run to its end (`Stepwise.visited`). Only the thread that
holds the lock has a closure at work, so the steps of other threads do not see how far it is.
-/
namespace EvictionCache

variable {policy : Policy} {κ ν ε ρ : Type}

section Definitions

/-- The key and the closure of a call that works on a value in place. -/
def SharedCall.closure? : SharedCall κ ν ε ρ → Option (κ × Closure ν ε ρ)
  | getWith key result => some (key, .reading result)
  | getMutWith key closure => some (key, closure)
  | _ => none

/-- The closure that a thread with the lock is about to run. -/
def CallStage.closure? : CallStage κ ν ε ρ → Option (κ × Closure ν ε ρ)
  | entered call => call.closure?
  | _ => none

/-- A closure at work on the value in a slot. -/
structure Visit (ν ε ρ : Type) where
  /-- The number of the thread that runs it. -/
  visitor : Nat
  /-- The slot of the value. -/
  slot : SlotId
  /-- The steps to come. -/
  rest : Closure ν ε ρ

variable [BEq κ] [Hashable κ]

namespace System

/-- The closure that a thread is about to run on the guarded cache. -/
def closure? (system : System policy κ ν ε ρ) (number : Nat) : Option (κ × Closure ν ε ρ) :=
  system.threads[number]?.bind fun thread => thread.stage.closure?

/-- Puts another cache behind the lock. -/
def guard (system : System policy κ ν ε ρ) (guarded : Cache policy κ ν) :
    System policy κ ν ε ρ :=
  { system with shared := { system.shared with guarded } }

/-- A thread has done its work on the cache and got an answer. -/
def answer (system : System policy κ ν ε ρ) (number : Nat) (reply : Reply κ ν ε ρ) :
    System policy κ ν ε ρ :=
  { system with
    threads := system.threads.modify number fun thread => { thread with stage := .worked reply } }

end System

/-- A shared cache whose threads run their closures one step at a time. -/
structure Stepwise (policy : Policy) (κ ν ε ρ : Type) [BEq κ] [Hashable κ] where
  /-- The cache and its threads. A thread whose closure is at work has not done its work. -/
  system : System policy κ ν ε ρ
  /-- The closure at work. -/
  visit? : Option (Visit ν ε ρ)

namespace Stepwise

/-- Threads before their first calls on a cache that nobody holds. -/
def ofPrograms (shared : SharedCache policy κ ν)
    (programs : List (List (SharedCall κ ν ε ρ))) : Stepwise policy κ ν ε ρ :=
  ⟨.ofPrograms shared programs, none⟩

/-- A thread looks up the key of its closure. That is the access; without the key the closure is
not run. -/
def begin (system : System policy κ ν ε ρ) (number : Nat) (key : κ) (closure : Closure ν ε ρ) :
    Stepwise policy κ ν ε ρ :=
  match system.shared.guarded.access key with
  | (none, guarded) => ⟨(system.guard guarded).answer number (.result none), none⟩
  | (some (slot, _), guarded) => ⟨system.guard guarded, some ⟨number, slot, closure⟩⟩

/-- The closure at work takes one step. When it finishes or fails, its thread has done its
work. -/
def resume (system : System policy κ ν ε ρ) (visit : Visit ν ε ρ) : Stepwise policy κ ν ε ρ :=
  match visit.rest with
  | .finish result => ⟨system.answer visit.visitor (.result (some result)), none⟩
  | .read next =>
    match system.shared.guarded.entryAt? visit.slot with
    | none => ⟨system, some visit⟩
    | some entry => ⟨system, some { visit with rest := next entry.value }⟩
  | .write value next =>
    ⟨system.guard (system.shared.guarded.setValue visit.slot value),
      some { visit with rest := next }⟩

/-- One step of a thread. -/
def step (stepwise : Stepwise policy κ ν ε ρ) (number : Nat) : Stepwise policy κ ν ε ρ :=
  match stepwise.visit? with
  | some visit =>
    if visit.visitor = number then resume stepwise.system visit
    else ⟨stepwise.system.step number, some visit⟩
  | none =>
    match stepwise.system.closure? number with
    | some (key, closure) => begin stepwise.system number key closure
    | none => ⟨stepwise.system.step number, none⟩

/-- The steps of a schedule, one after another. -/
def run (stepwise : Stepwise policy κ ν ε ρ) (schedule : List Nat) : Stepwise policy κ ν ε ρ :=
  schedule.foldl step stepwise

/-- The cache and its threads once a closure that found its slot has run to its end. -/
def visited (stepwise : Stepwise policy κ ν ε ρ) : System policy κ ν ε ρ :=
  match stepwise.visit? with
  | none => stepwise.system
  | some visit =>
    match stepwise.system.shared.guarded.entryAt? visit.slot with
    | none => stepwise.system
    | some entry =>
      let (value, result) := visit.rest.run entry.value
      (stepwise.system.guard (stepwise.system.shared.guarded.setValue visit.slot value)).answer
        visit.visitor (.result (some result))

end Stepwise

end Definitions

variable [BEq κ] [Hashable κ]

namespace Cache

variable {cache after : Cache policy κ ν} {slot : SlotId} {entry : Entry κ ν policy.Metadata}

/-- Leaving the value that a slot holds changes nothing. -/
theorem setValue_self (held : cache.entryAt? slot = some entry) :
    cache.setValue slot entry.value = cache :=
  congrArg (fun store => { cache with store }) (Policy.setValue_self held)

/-- Of two values left in one slot the second stays. -/
theorem setValue_setValue (cache : Cache policy κ ν) (slot : SlotId) (first second : ν) :
    (cache.setValue slot first).setValue slot second = cache.setValue slot second :=
  congrArg (fun store => { cache with store })
    (Policy.setValue_setValue cache.store slot first second)

/-- The value that was left is the one that the slot holds. -/
theorem entryAt?_setValue (held : cache.entryAt? slot = some entry) (value : ν) :
    (cache.setValue slot value).entryAt? slot = some (entry.withValue value) :=
  Policy.entry?_setValue held value

/-- An access finds what its slot holds afterwards. -/
theorem entryAt?_access {key : κ} (accessed : cache.access key = (some (slot, entry), after)) :
    after.entryAt? slot = some entry := by
  rw [access] at accessed
  split at accessed
  · cases (Prod.ext_iff.mp accessed).1
  · next found _ =>
    obtain ⟨sought, rfl⟩ := Prod.ext_iff.mp accessed
    obtain ⟨held, present, same⟩ := Option.map_eq_some_iff.mp sought
    obtain ⟨rfl, rfl⟩ := Prod.mk.inj same
    exact present

/-- An action on an absent key is not run. -/
theorem visit_of_none {key : κ} (accessed : cache.access key = (none, after))
    (action : ν → ν × ρ) : cache.visit key action = .silent none after := by
  rw [visit, accessed]

/-- An action on a present key is run on the value that the access found. -/
theorem visit_of_some {key : κ} (accessed : cache.access key = (some (slot, entry), after))
    (action : ν → ν × ρ) :
    cache.visit key action =
      .silent (some (action entry.value).2) (after.setValue slot (action entry.value).1) := by
  rw [visit, accessed]

/-- Working on a value causes no event. -/
theorem events_visit (cache : Cache policy κ ν) (key : κ) (action : ν → ν × ρ) :
    (cache.visit key action).events = [] := by
  rw [visit]
  split <;> rfl

/-- A closure that only reads leaves what reading leaves. -/
theorem visit_reading (cache : Cache policy κ ν) (key : κ) (result : ν → Except ε ρ) :
    cache.visit key (Closure.reading result).run =
      (cache.get key).map fun value => value.map result := by
  rw [get]
  rcases accessed : cache.access key with ⟨_ | ⟨slot, entry⟩, after⟩
  · rw [visit_of_none accessed]
    rfl
  · have kept : after.setValue slot entry.value = after :=
      setValue_self (entryAt?_access accessed)
    rw [visit_of_some accessed]
    exact congrArg (Outcome.silent (some (result entry.value))) kept

end Cache

/-- Reading a value with a closure is working on it with one that only reads. -/
theorem SharedCache.getWith_eq (shared : SharedCache policy κ ν) (key : κ)
    (result : ν → Except ε ρ) :
    shared.getWith key result = shared.getMutWith key (.reading result) := by
  rw [getMutWith, locked, Cache.visit_reading]
  rfl

/-- A call that works on a value in place runs its closure there. -/
theorem SharedCache.perform_of_closure? (shared : SharedCache policy κ ν)
    {call : SharedCall κ ν ε ρ} {key : κ} {closure : Closure ν ε ρ}
    (runs : call.closure? = some (key, closure)) :
    shared.perform call = (shared.getMutWith key closure).map .result := by
  cases call with
  | getWith sought result =>
    obtain ⟨rfl, rfl⟩ := Prod.mk.inj (Option.some.inj runs)
    exact congrArg (Outcome.map Reply.result) (shared.getWith_eq sought result)
  | getMutWith sought other =>
    obtain ⟨rfl, rfl⟩ := Prod.mk.inj (Option.some.inj runs)
    rfl
  | _ => cases runs

namespace System

variable {system next : System policy κ ν ε ρ} {number visitor : Nat}

/-- A thread that has taken the lock and not given it back holds it. -/
def Exclusive (system : System policy κ ν ε ρ) : Prop :=
  ∀ number thread, system.threads[number]? = some thread → thread.stage.Holds →
    system.holder = some number

/-- One thread goes on while the others keep the lock if they hold it. -/
theorem Exclusive.set (exclusive : system.Exclusive) {renewed : Thread κ ν ε ρ}
    (threads : next.threads = system.threads.set number renewed)
    (mine : renewed.stage.Holds → next.holder = some number)
    (others : ∀ other, other ≠ number → system.holder = some other →
      next.holder = some other) : next.Exclusive := by
  intro other thread found holds
  rw [threads, List.getElem?_set] at found
  split at found
  · next same =>
    split at found
    · obtain rfl := Option.some.inj found
      exact same ▸ mine holds
    · cases found
  · next apart => exact others other (Ne.symm apart) (exclusive other thread found holds)

/-- A thread takes the lock only when it is free. -/
theorem Exclusive.step (exclusive : system.Exclusive) (number : Nat) :
    (system.step number).Exclusive := by
  rw [System.step]
  cases found : system.threads[number]? with
  | none => exact exclusive
  | some thread =>
    have mine := exclusive number thread found
    dsimp only
    cases stage : thread.stage with
    | idle =>
      dsimp only
      rw [enter]
      cases thread.program with
      | nil => exact exclusive
      | cons call rest =>
        dsimp only
        split
        · split
          · next free =>
            refine exclusive.set rfl (fun _ => rfl) fun other _ held => ?_
            rw [held] at free
            cases free
          · exact exclusive
        · exact exclusive.set rfl (fun holds => absurd holds id) fun _ _ held => held
    | entered call =>
      rw [stage] at mine
      exact exclusive.set rfl (fun _ => mine trivial) fun _ _ held => held
    | worked reply =>
      rw [stage] at mine
      refine exclusive.set rfl (fun holds => absurd holds id) fun other apart held => ?_
      exact absurd (Option.some.inj (held.symm.trans (mine trivial))) apart
    | leaving reply =>
      exact exclusive.set rfl (fun holds => absurd holds id) fun _ _ held => held

/-- A thread that has done its work still holds the lock. -/
theorem Exclusive.answer (exclusive : system.Exclusive) (held : system.holder = some number)
    (reply : Reply κ ν ε ρ) : (system.answer number reply).Exclusive := by
  intro other thread found holds
  by_cases same : number = other
  · exact same ▸ held
  · refine exclusive other thread (Eq.trans ?_ found) holds
    exact (List.getElem?_modify_ne _ _ same).symm

/-- Systems in which the same thread holds the lock and another thread is at the same point. -/
structure Beside (visitor number : Nat) (system other : System policy κ ν ε ρ) : Prop where
  /-- The same thread holds the lock. -/
  holder : system.holder = some visitor ∧ other.holder = some visitor
  /-- The other thread is at the same point. -/
  threads : other.threads[number]? = system.threads[number]?
  /-- The turns were the same. -/
  taken : other.taken = system.taken
  /-- The caches have the same limit. -/
  limit : other.shared.limit = system.shared.limit

/-- While one thread holds the lock, the step of another is a step of that thread alone. It is
the same whatever the first thread does to the cache. -/
theorem Exclusive.exists_step_beside (exclusive : system.Exclusive)
    (held : system.holder = some visitor) (apart : number ≠ visitor) :
    ∃ (renew : Thread κ ν ε ρ → Thread κ ν ε ρ) (taken : List (Nat × SharedCall κ ν ε ρ)),
      ∀ other, Beside visitor number system other →
        other.step number =
          { other with threads := other.threads.modify number renew, taken } := by
  have still (same : ∀ other, Beside visitor number system other → other.step number = other) :
      ∃ (renew : Thread κ ν ε ρ → Thread κ ν ε ρ) (taken : _), ∀ other,
        Beside visitor number system other → other.step number =
          { other with threads := other.threads.modify number renew, taken } := by
    refine ⟨id, system.taken, fun other beside => ?_⟩
    rw [same other beside, List.modify_id, ← beside.taken]
  cases found : system.threads[number]? with
  | none =>
    refine still fun other beside => ?_
    rw [System.step, beside.threads, found]
  | some thread =>
    have free : ¬ thread.stage.Holds := fun holds =>
      apart (Option.some.inj ((exclusive number thread found holds).symm.trans held))
    have moved (renewed : Thread κ ν ε ρ) (other : System policy κ ν ε ρ)
        (beside : Beside visitor number system other) :
        other.threads.set number renewed = other.threads.modify number fun _ => renewed := by
      rw [List.modify_eq_set_getElem?, beside.threads, found]
      rfl
    cases stage : thread.stage with
    | entered | worked => exact absurd (stage ▸ trivial) free
    | leaving reply =>
      refine ⟨fun _ => { thread with stage := .idle, replies := thread.replies ++ [reply] },
        system.taken, fun other beside => ?_⟩
      rw [← moved _ other beside, System.step, beside.threads, found, ← beside.taken]
      dsimp only
      rw [stage]
      rfl
    | idle =>
      have enters (other : System policy κ ν ε ρ) (beside : Beside visitor number system other) :
          other.step number = other.enter number thread := by
        rw [System.step, beside.threads, found]
        dsimp only
        rw [stage]
      cases begun : thread.program with
      | nil =>
        refine still fun other beside => ?_
        rw [enters other beside, enter, begun]
      | cons call rest =>
        by_cases needs : call.needsLock = true
        · refine still fun other beside => ?_
          rw [enters other beside, enter, begun]
          simp only [needs, if_true, beside.holder.2, Option.isNone_some, Bool.false_eq_true,
            if_false]
        · obtain rfl : call = .capacity := by
            cases call <;> first | rfl | exact absurd rfl needs
          refine ⟨fun _ => ⟨.leaving (.number system.shared.limit.entries), rest, thread.replies⟩,
            system.taken ++ [(number, .capacity)], fun other beside => ?_⟩
          rw [← moved _ other beside, enters other beside, enter, begun, ← beside.taken,
            ← beside.limit]
          rfl

/-- While one thread holds the lock, the step of another leaves the cache, the lock, the log and
the first thread alone. -/
theorem Exclusive.step_beside (exclusive : system.Exclusive)
    (held : system.holder = some visitor) (apart : number ≠ visitor) :
    (system.step number).shared = system.shared ∧ (system.step number).holder = some visitor ∧
      (system.step number).threads[visitor]? = system.threads[visitor]? := by
  obtain ⟨renew, taken, stepped⟩ := exclusive.exists_step_beside held apart
  rw [stepped system ⟨⟨held, held⟩, rfl, rfl, rfl⟩]
  exact ⟨rfl, held, List.getElem?_modify_ne renew _ apart⟩

/-- The step of another thread may come before or after the work of the thread that holds the
lock. -/
theorem Exclusive.step_answer (exclusive : system.Exclusive)
    (held : system.holder = some visitor) (apart : number ≠ visitor) (guarded : Cache policy κ ν)
    (reply : Reply κ ν ε ρ) :
    ((system.guard guarded).answer visitor reply).step number =
      ((system.step number).guard guarded).answer visitor reply := by
  obtain ⟨renew, taken, stepped⟩ := exclusive.exists_step_beside held apart
  have unseen : ((system.guard guarded).answer visitor reply).threads[number]? =
      system.threads[number]? := List.getElem?_modify_ne _ _ (Ne.symm apart)
  rw [stepped system ⟨⟨held, held⟩, rfl, rfl, rfl⟩,
    stepped ((system.guard guarded).answer visitor reply) ⟨⟨held, held⟩, unseen, rfl, rfl⟩]
  have order := List.modify_modify_ne (fun thread => { thread with stage := .worked reply })
    renew system.threads (Ne.symm apart)
  exact congrArg (fun threads => System.mk _ _ threads taken system.log) order

/-- A thread with the lock does the work of its call. -/
theorem step_of_entered {thread : Thread κ ν ε ρ} {call : SharedCall κ ν ε ρ}
    (found : system.threads[number]? = some thread) (stage : thread.stage = .entered call) :
    system.step number =
      { system with
        shared := (system.shared.perform call).state
        log := system.log ++ (system.shared.perform call).events }.setThread number
          { thread with stage := .worked (system.shared.perform call).answer } := by
  rw [step, found]
  dsimp only
  rw [stage]

/-- A thread that has done its work gives the lock back. -/
theorem step_of_worked {thread : Thread κ ν ε ρ} {reply : Reply κ ν ε ρ}
    (found : system.threads[number]? = some thread) (stage : thread.stage = .worked reply) :
    system.step number =
      { system with holder := none }.setThread number
        { thread with stage := .leaving reply } := by
  rw [step, found]
  dsimp only
  rw [stage]

/-- A thread that is about to run a closure stands before a call that has one. -/
theorem exists_thread_of_closure? {key : κ} {closure : Closure ν ε ρ}
    (runs : system.closure? number = some (key, closure)) :
    ∃ thread call, system.threads[number]? = some thread ∧ thread.stage = .entered call ∧
      call.closure? = some (key, closure) := by
  obtain ⟨thread, found, runs⟩ := Option.bind_eq_some_iff.mp runs
  cases stage : thread.stage with
  | entered call => exact ⟨thread, call, found, stage, by rwa [stage] at runs⟩
  | idle | worked | leaving => rw [stage] at runs; cases runs

/-- A thread that runs a closure at once works on the value of the key and gets an answer. -/
theorem step_of_closure? {key : κ} {closure : Closure ν ε ρ}
    (runs : system.closure? number = some (key, closure)) :
    system.step number =
      (system.guard (system.shared.guarded.visit key closure.run).state).answer number
        (.result (system.shared.guarded.visit key closure.run).answer) := by
  obtain ⟨thread, call, found, stage, runs⟩ := exists_thread_of_closure? runs
  have logged : system.log ++ (system.shared.getMutWith key closure).events = system.log :=
    (congrArg (system.log ++ ·) (system.shared.guarded.events_visit key closure.run)).trans
      (List.append_nil _)
  rw [step_of_entered found stage, system.shared.perform_of_closure? runs, answer,
    List.modify_eq_set_getElem?]
  simp only [guard, found, Option.map_eq_map, Option.map_some, Option.getD_some]
  exact congrArg (System.mk _ _ _ _) logged

variable [EquivBEq κ] [LawfulHashable κ] [BEq ν]

/-- A step of a thread that does its work at once makes elementary changes only. -/
theorem changes_step {queue : Queue policy κ ν}
    (represents : system.shared.guarded.Represents queue) (number : Nat) :
    Relation.ReflTransGen Cache.Change system.shared.guarded
      (system.step number).shared.guarded := by
  rw [step]
  split
  · exact .refl
  · next thread _ =>
    split
    · rw [(system.enter_frame number thread).1]
    · next call _ =>
      have changes := represents.changes_serve call.alone
      rwa [← (system.shared.perform_alone call).1] at changes
    · exact .refl
    · exact .refl

end System

namespace Stepwise

open Relation (ReflTransGen)

variable {stepwise : Stepwise policy κ ν ε ρ} {system : System policy κ ν ε ρ}
  {visit : Visit ν ε ρ} {number : Nat}

/-- A closure at work belongs to the thread that holds the lock, and its slot holds an entry. -/
structure Sound (stepwise : Stepwise policy κ ν ε ρ) : Prop where
  /-- Only the thread that holds the lock stands between taking it and giving it back. -/
  exclusive : stepwise.system.Exclusive
  /-- The thread that runs a closure holds the lock. -/
  holder : ∀ visit, stepwise.visit? = some visit →
    stepwise.system.holder = some visit.visitor
  /-- There is a value for the closure to work on. -/
  entry : ∀ visit, stepwise.visit? = some visit →
    ∃ entry, stepwise.system.shared.guarded.entryAt? visit.slot = some entry

/-- Doing the work of a call at once is looking its key up and letting its closure run to its
end. -/
theorem visited_begin {key : κ} {closure : Closure ν ε ρ}
    (runs : system.closure? number = some (key, closure)) :
    (begin system number key closure).visited = system.step number := by
  rw [System.step_of_closure? runs, begin]
  rcases accessed : system.shared.guarded.access key with ⟨_ | ⟨slot, entry⟩, guarded⟩
  · rw [Cache.visit_of_none accessed]
    rfl
  · have held : guarded.entryAt? slot = some entry := Cache.entryAt?_access accessed
    rw [Cache.visit_of_some accessed]
    simp only [visited, System.guard, held]
    rfl

/-- A step of the closure at work changes nothing about how its work ends. -/
theorem visited_resume
    (held : ∃ entry, system.shared.guarded.entryAt? visit.slot = some entry) :
    (resume system visit).visited = visited ⟨system, some visit⟩ := by
  obtain ⟨visitor, slot, rest⟩ := visit
  obtain ⟨entry, held⟩ := held
  dsimp only at held
  rw [resume]
  cases rest with
  | finish result =>
    have kept := Cache.setValue_self held
    simp only [visited, held, Closure.run, kept]
    rfl
  | read next => simp only [visited, held, Closure.run]
  | write value next =>
    have renewed := Cache.entryAt?_setValue held value
    simp only [visited, held, System.guard, renewed, Closure.run, Cache.setValue_setValue]
    rfl

namespace Sound

/-- While no closure is at work only the lock matters. -/
theorem of_none (exclusive : system.Exclusive) : Sound ⟨system, none⟩ :=
  ⟨exclusive, fun _ atWork => (nomatch atWork), fun _ atWork => (nomatch atWork)⟩

/-- A closure is at work for the thread that holds the lock. -/
theorem of_some (exclusive : system.Exclusive) (held : system.holder = some visit.visitor)
    (present : ∃ entry, system.shared.guarded.entryAt? visit.slot = some entry) :
    Sound ⟨system, some visit⟩ := by
  refine ⟨exclusive, fun other same => ?_, fun other same => ?_⟩
  · exact Option.some.inj same ▸ held
  · exact Option.some.inj same ▸ present

/-- Looking a key up puts a closure to work on a slot with an entry, if at all. -/
theorem begin {key : κ} {closure : Closure ν ε ρ} (exclusive : system.Exclusive)
    (runs : system.closure? number = some (key, closure)) :
    (begin system number key closure).Sound := by
  obtain ⟨thread, call, found, stage, _⟩ := System.exists_thread_of_closure? runs
  have held : system.holder = some number :=
    exclusive number thread found (by rw [stage]; exact trivial)
  rw [Stepwise.begin]
  rcases accessed : system.shared.guarded.access key with ⟨_ | ⟨slot, entry⟩, guarded⟩
  · exact .of_none (exclusive.answer held _)
  · exact .of_some exclusive held ⟨entry, Cache.entryAt?_access accessed⟩

/-- A closure at work stays on its slot. -/
theorem resume (exclusive : system.Exclusive) (held : system.holder = some visit.visitor)
    (present : ∃ entry, system.shared.guarded.entryAt? visit.slot = some entry) :
    (resume system visit).Sound := by
  rw [Stepwise.resume]
  split
  · exact .of_none (exclusive.answer held _)
  · split <;> exact .of_some exclusive held present
  · obtain ⟨entry, present⟩ := present
    exact .of_some exclusive held ⟨_, Cache.entryAt?_setValue present _⟩

/-- Every step leaves a closure at work to the thread that holds the lock. -/
theorem step (sound : stepwise.Sound) (number : Nat) : (stepwise.step number).Sound := by
  obtain ⟨system, visit?⟩ := stepwise
  have exclusive : system.Exclusive := sound.exclusive
  cases visit? with
  | none =>
    rw [Stepwise.step]
    dsimp only
    split
    · next key closure runs => exact begin exclusive runs
    · exact .of_none (exclusive.step number)
  | some visit =>
    have held : system.holder = some visit.visitor := sound.holder visit rfl
    have present : ∃ entry, system.shared.guarded.entryAt? visit.slot = some entry :=
      sound.entry visit rfl
    rw [Stepwise.step]
    dsimp only
    split
    · exact resume exclusive held present
    · next apart =>
      obtain ⟨shared, holder, _⟩ := exclusive.step_beside held (Ne.symm apart)
      exact .of_some (exclusive.step number) holder (shared ▸ present)

/-- Every schedule leaves a closure at work to the thread that holds the lock. -/
theorem run (sound : stepwise.Sound) (schedule : List Nat) : (stepwise.run schedule).Sound := by
  induction schedule generalizing stepwise with
  | nil => exact sound
  | cons number rest ih => exact ih (sound.step number)

/-- A step of the closure at work does not show once it has run to its end; every other step is
one of the calls at once. -/
theorem visited_step (sound : stepwise.Sound) (number : Nat) :
    (stepwise.step number).visited = stepwise.visited ∨
      (stepwise.step number).visited = stepwise.visited.step number := by
  obtain ⟨system, visit?⟩ := stepwise
  cases visit? with
  | none =>
    right
    rw [Stepwise.step]
    dsimp only
    split
    · next key closure runs => exact visited_begin runs
    · rfl
  | some visit =>
    have exclusive : system.Exclusive := sound.exclusive
    have held : system.holder = some visit.visitor := sound.holder visit rfl
    have present : ∃ entry, system.shared.guarded.entryAt? visit.slot = some entry :=
      sound.entry visit rfl
    rw [Stepwise.step]
    dsimp only
    split
    · exact .inl (visited_resume present)
    · next apart =>
      right
      obtain ⟨entry, present⟩ := present
      obtain ⟨shared, _, _⟩ := exclusive.step_beside held (Ne.symm apart)
      simp only [visited, shared, present]
      exact (exclusive.step_answer held (Ne.symm apart) _ _).symm

/-- Closures that run one step at a time do what calls that work at once do, under a schedule
without the steps of the closures. -/
theorem exists_visited_run (sound : stepwise.Sound) (schedule : List Nat) :
    ∃ coarse, coarse.Sublist schedule ∧
      (stepwise.run schedule).visited = stepwise.visited.run coarse := by
  induction schedule generalizing stepwise with
  | nil => exact ⟨[], .slnil, rfl⟩
  | cons number rest ih =>
    obtain ⟨coarse, among, same⟩ := ih (sound.step number)
    rcases sound.visited_step number with kept | stepped
    · exact ⟨coarse, among.cons number, same.trans (congrArg (System.run · coarse) kept)⟩
    · exact ⟨number :: coarse, among.cons_cons number,
        same.trans (congrArg (System.run · coarse) stepped)⟩

end Sound

section Changes

variable [EquivBEq κ] [LawfulHashable κ] [BEq ν]

/-- A step of a thread makes elementary changes only. -/
theorem changes_step {queue : Queue policy κ ν}
    (represents : stepwise.system.shared.guarded.Represents queue) (number : Nat) :
    ReflTransGen Cache.Change stepwise.system.shared.guarded
      (stepwise.step number).system.shared.guarded := by
  rw [step]
  split
  · split
    · rw [resume]
      split
      · exact .refl
      · split <;> exact .refl
      · exact .single (.write _ _)
    · exact System.changes_step represents number
  · split
    · next key closure _ =>
      have accessed := represents.change_access key
      rw [begin]
      split
      · next missing =>
        rw [missing] at accessed
        exact .single accessed
      · next present =>
        rw [present] at accessed
        exact .single accessed
    · exact System.changes_step represents number

end Changes

end Stepwise

end EvictionCache
