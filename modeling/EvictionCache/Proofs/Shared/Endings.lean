import EvictionCache.Proofs.Shared.Stepwise
import Mathlib

/-!
# Endings of closures

How a closure ends, with a result or with a failure, is told to its caller and to nobody else.
Closures that take the same steps and end in different ways leave the same cache, the same log
and the same lock, and every thread goes on in the same way: changing all endings in a system
commutes with every step of every thread (`Stepwise.run_mapEnd`). In particular failures may be
taken for results, so that no closure fails.
-/
namespace EvictionCache

variable {policy : Policy} {κ ν ε ρ δ σ : Type}

section Definitions

/-- The same steps with another ending. -/
def Closure.mapEnd (change : Except ε ρ → Except δ σ) : Closure ν ε ρ → Closure ν δ σ
  | finish result => .finish (change result)
  | read next => .read fun value => (next value).mapEnd change
  | write value next => .write value (next.mapEnd change)

/-- The same call with another ending of its closure. -/
def SharedCall.mapEnd (change : Except ε ρ → Except δ σ) :
    SharedCall κ ν ε ρ → SharedCall κ ν δ σ
  | get key => .get key
  | getWith key result => .getWith key fun value => change (result value)
  | getMutWith key closure => .getMutWith key (closure.mapEnd change)
  | peek key => .peek key
  | put key value => .put key value
  | push key value => .push key value
  | remove key => .remove key
  | clear => .clear
  | frequency key => .frequency key
  | containsKey key => .containsKey key
  | isEmpty => .isEmpty
  | size => .size
  | capacity => .capacity
  | metrics => .metrics
  | report => .report

/-- The answer to the same call with another ending of its closure. -/
def Reply.mapEnd (change : Except ε ρ → Except δ σ) : Reply κ ν ε ρ → Reply κ ν δ σ
  | .value found => .value found
  | .result ended => .result (ended.map change)
  | .pair found => .pair found
  | .pairs found => .pairs found
  | .count found => .count found
  | .number found => .number found
  | .truth found => .truth found
  | .metrics found => .metrics found
  | .report found => .report found
  | .done => .done

/-- The same stage of the same call with another ending of its closure. -/
def CallStage.mapEnd (change : Except ε ρ → Except δ σ) :
    CallStage κ ν ε ρ → CallStage κ ν δ σ
  | idle => .idle
  | entered call => .entered (call.mapEnd change)
  | worked reply => .worked (reply.mapEnd change)
  | leaving reply => .leaving (reply.mapEnd change)

/-- The same thread with other endings of its closures. -/
def Thread.mapEnd (change : Except ε ρ → Except δ σ) (thread : Thread κ ν ε ρ) :
    Thread κ ν δ σ where
  stage := thread.stage.mapEnd change
  program := thread.program.map (SharedCall.mapEnd change)
  replies := thread.replies.map (Reply.mapEnd change)

/-- The same closure at work with another ending. -/
def Visit.mapEnd (change : Except ε ρ → Except δ σ) (visit : Visit ν ε ρ) : Visit ν δ σ where
  visitor := visit.visitor
  slot := visit.slot
  rest := visit.rest.mapEnd change

variable [BEq κ] [Hashable κ]

/-- The same cache with the same threads, whose closures have other endings. -/
def System.mapEnd (change : Except ε ρ → Except δ σ) (system : System policy κ ν ε ρ) :
    System policy κ ν δ σ where
  shared := system.shared
  holder := system.holder
  threads := system.threads.map (Thread.mapEnd change)
  taken := system.taken.map fun turn => (turn.1, turn.2.mapEnd change)
  log := system.log

/-- The same cache with the same threads, whose closures have other endings. -/
def Stepwise.mapEnd (change : Except ε ρ → Except δ σ) (stepwise : Stepwise policy κ ν ε ρ) :
    Stepwise policy κ ν δ σ where
  system := stepwise.system.mapEnd change
  visit? := stepwise.visit?.map (Visit.mapEnd change)

end Definitions

variable (change : Except ε ρ → Except δ σ)

/-- Another ending leaves the same value. -/
theorem Closure.run_mapEnd (closure : Closure ν ε ρ) (value : ν) :
    (closure.mapEnd change).run value =
      ((closure.run value).1, change (closure.run value).2) := by
  induction closure generalizing value with
  | finish result => rfl
  | read next ih => exact ih value value
  | write written next ih => exact ih written

/-- Calls need the lock for other reasons than endings. -/
theorem SharedCall.needsLock_mapEnd (call : SharedCall κ ν ε ρ) :
    (call.mapEnd change).needsLock = call.needsLock := by
  cases call <;> rfl

/-- A call with another ending runs the closure with that ending. -/
theorem SharedCall.closure?_mapEnd (call : SharedCall κ ν ε ρ) :
    (call.mapEnd change).closure? =
      call.closure?.map fun runs => (runs.1, runs.2.mapEnd change) := by
  cases call <;> rfl

variable [BEq κ] [Hashable κ]

/-- Only the caller sees how a closure ends. -/
theorem SharedCache.perform_mapEnd (shared : SharedCache policy κ ν)
    (call : SharedCall κ ν ε ρ) :
    shared.perform (call.mapEnd change) = (shared.perform call).map (Reply.mapEnd change) := by
  cases call with
  | getWith key result =>
    have found := Option.map_map change result (shared.get key).answer
    exact congrArg (fun found => Outcome.mk (Reply.result found) _ _) found.symm
  | getMutWith key closure =>
    simp only [SharedCall.mapEnd, perform, getMutWith, locked, Cache.visit,
      Closure.run_mapEnd]
    rcases shared.guarded.access key with ⟨_ | ⟨slot, entry⟩, after⟩ <;> rfl
  | _ => rfl

namespace System

variable (system : System policy κ ν ε ρ) (number : Nat)

/-- Replacing a thread does not depend on endings. -/
theorem setThread_mapEnd (thread : Thread κ ν ε ρ) :
    (system.mapEnd change).setThread number (thread.mapEnd change) =
      (system.setThread number thread).mapEnd change :=
  congrArg (fun threads => System.mk _ _ threads _ _) List.map_set.symm

/-- Having done its work does not depend on endings. -/
theorem answer_mapEnd (reply : Reply κ ν ε ρ) :
    (system.mapEnd change).answer number (reply.mapEnd change) =
      (system.answer number reply).mapEnd change := by
  have threads : (system.threads.map (Thread.mapEnd change)).modify number
        (fun thread => { thread with stage := .worked (reply.mapEnd change) }) =
      (system.threads.modify number fun thread => { thread with stage := .worked reply }).map
        (Thread.mapEnd change) := by
    apply List.ext_getElem?
    intro position
    rw [List.getElem?_modify, List.getElem?_map, List.getElem?_map, List.getElem?_modify]
    cases system.threads[position]? with
    | none => rfl
    | some thread =>
      simp only [Option.map_eq_map, Option.map_some]
      split <;> rfl
  exact congrArg (fun threads => System.mk _ _ threads _ _) threads

/-- Beginning a call does not depend on endings. -/
theorem enter_mapEnd (thread : Thread κ ν ε ρ) :
    (system.mapEnd change).enter number (thread.mapEnd change) =
      (system.enter number thread).mapEnd change := by
  obtain ⟨stage, program, replies⟩ := thread
  cases program with
  | nil => rfl
  | cons call rest =>
    have began (holder : Option Nat) (begun : Thread κ ν ε ρ) :
        System.mk system.shared holder
            ((system.threads.map (Thread.mapEnd change)).set number (begun.mapEnd change))
            ((system.mapEnd change).taken ++ [(number, call.mapEnd change)]) system.log =
          (System.mk system.shared holder (system.threads.set number begun)
            (system.taken ++ [(number, call)]) system.log).mapEnd change := by
      have taken : (system.mapEnd change).taken ++ [(number, call.mapEnd change)] =
          (system.taken ++ [(number, call)]).map fun turn => (turn.1, turn.2.mapEnd change) := by
        rw [List.map_append]
        rfl
      exact congrArg₂ (fun threads taken => System.mk _ _ threads taken _) List.map_set.symm taken
    rw [enter, enter]
    simp only [Thread.mapEnd, List.map_cons, call.needsLock_mapEnd]
    split
    · change (if system.holder.isNone then _ else _) = _
      split
      · exact began (some number) ⟨.entered call, rest, replies⟩
      · rfl
    · have answer := congrArg Outcome.answer (system.shared.perform_mapEnd change call)
      refine Eq.trans ?_ (began system.holder
        ⟨.leaving (system.shared.perform call).answer, rest, replies⟩)
      simp only [Thread.mapEnd, CallStage.mapEnd]
      exact congrArg (fun reply => System.mk _ _
        (List.set _ _ (Thread.mk (.leaving reply) _ _)) _ _) answer

/-- A step of a thread does not depend on endings. -/
theorem step_mapEnd :
    (system.mapEnd change).step number = (system.step number).mapEnd change := by
  have found : (system.mapEnd change).threads[number]? =
      system.threads[number]?.map (Thread.mapEnd change) := List.getElem?_map
  rw [step, step, found]
  cases system.threads[number]? with
  | none => rfl
  | some thread =>
    obtain ⟨stage, program, replies⟩ := thread
    cases stage with
    | idle => exact system.enter_mapEnd change number ⟨.idle, program, replies⟩
    | entered call =>
      have performed := system.shared.perform_mapEnd change call
      simp only [Option.map_some, Thread.mapEnd, CallStage.mapEnd]
      rw [show (system.mapEnd change).shared = system.shared from rfl, performed]
      exact setThread_mapEnd change
        { system with
          shared := (system.shared.perform call).state
          log := system.log ++ (system.shared.perform call).events } number
        ⟨.worked (system.shared.perform call).answer, program, replies⟩
    | worked reply =>
      exact setThread_mapEnd change { system with holder := none } number
        ⟨.leaving reply, program, replies⟩
    | leaving reply =>
      have left := setThread_mapEnd change system number ⟨.idle, program, replies ++ [reply]⟩
      rw [Thread.mapEnd, List.map_append] at left
      exact left

/-- A thread is about to run the closure with another ending. -/
theorem closure?_mapEnd :
    (system.mapEnd change).closure? number =
      (system.closure? number).map fun runs => (runs.1, runs.2.mapEnd change) := by
  rw [closure?, closure?, mapEnd, List.getElem?_map]
  cases system.threads[number]? with
  | none => rfl
  | some thread =>
    rw [Option.map_some, Option.bind_some, Option.bind_some, Thread.mapEnd]
    cases thread.stage with
    | entered call => exact call.closure?_mapEnd change
    | idle | worked | leaving => rfl

end System

namespace Stepwise

/-- Looking a key up does not depend on endings. -/
theorem begin_mapEnd (system : System policy κ ν ε ρ) (number : Nat) (key : κ)
    (closure : Closure ν ε ρ) :
    begin (system.mapEnd change) number key (closure.mapEnd change) =
      (begin system number key closure).mapEnd change := by
  rw [begin, begin, show (system.mapEnd change).shared = system.shared from rfl]
  rcases system.shared.guarded.access key with ⟨_ | ⟨slot, entry⟩, guarded⟩
  · exact congrArg (mk · none) ((system.guard guarded).answer_mapEnd change number (.result none))
  · rfl

/-- A step of a closure depends on its ending only where it ends. -/
theorem resume_mapEnd (system : System policy κ ν ε ρ) (visit : Visit ν ε ρ) :
    resume (system.mapEnd change) (visit.mapEnd change) =
      (resume system visit).mapEnd change := by
  obtain ⟨visitor, slot, rest⟩ := visit
  rw [resume, resume]
  cases rest with
  | finish result =>
    exact congrArg (mk · none) (system.answer_mapEnd change visitor (.result (some result)))
  | read next =>
    simp only [Visit.mapEnd, Closure.mapEnd, show (system.mapEnd change).shared = system.shared
      from rfl]
    cases system.shared.guarded.entryAt? slot <;> rfl
  | write value next => rfl

/-- A step of a thread does not depend on endings. -/
theorem step_mapEnd (stepwise : Stepwise policy κ ν ε ρ) (number : Nat) :
    (stepwise.mapEnd change).step number = (stepwise.step number).mapEnd change := by
  obtain ⟨system, visit?⟩ := stepwise
  rw [step, step]
  cases visit? with
  | none =>
    simp only [mapEnd, Option.map_none, System.closure?_mapEnd]
    cases system.closure? number with
    | none => exact congrArg (mk · none) (system.step_mapEnd change number)
    | some runs => exact begin_mapEnd change system number runs.1 runs.2
  | some visit =>
    simp only [mapEnd, Option.map_some]
    change (if visit.visitor = number then _ else _) = _
    split
    · exact resume_mapEnd change system visit
    · exact congrArg (mk · (some (visit.mapEnd change))) (system.step_mapEnd change number)

/-- A schedule goes on in the same way with other endings. -/
theorem run_mapEnd (stepwise : Stepwise policy κ ν ε ρ) (schedule : List Nat) :
    (stepwise.mapEnd change).run schedule = (stepwise.run schedule).mapEnd change := by
  induction schedule generalizing stepwise with
  | nil => rfl
  | cons number rest ih =>
    exact (congrArg (run · rest) (stepwise.step_mapEnd change number)).trans (ih _)

/-- Programs whose closures have other endings. -/
theorem ofPrograms_mapEnd (shared : SharedCache policy κ ν)
    (programs : List (List (SharedCall κ ν ε ρ))) :
    ofPrograms shared (programs.map (List.map (SharedCall.mapEnd change))) =
      (ofPrograms shared programs).mapEnd change := by
  simp only [ofPrograms, System.ofPrograms, mapEnd, System.mapEnd, List.map_map, List.map_nil,
    Option.map_none]
  rfl

end Stepwise

end EvictionCache
