import EvictionCache.Proofs.Shared.Stepwise
import Mathlib

/-!
# Every call gives the lock back

A thread that has taken the lock gives it back after a number of steps of its own, however the
steps of other threads come in between: they cannot take the lock, and neither the cache nor the
closure at work changes by them (`Stands.beside`). When the lock is free again the cache is left
as by the call at once, also if the closure of the call failed.
-/
namespace EvictionCache

variable {policy : Policy} {κ ν ε ρ : Type} [BEq κ] [Hashable κ]

namespace Stepwise

variable {stepwise : Stepwise policy κ ν ε ρ} {number other : Nat}
  {shared : SharedCache policy κ ν} {stage : CallStage κ ν ε ρ} {visit? : Option (Visit ν ε ρ)}
  {outcome : Outcome (SharedCache policy κ ν) (Reply κ ν ε ρ)}

/-- A thread holds the lock at a stage of its call, with a cache and a closure at work as
given. -/
structure Stands (stepwise : Stepwise policy κ ν ε ρ) (number : Nat)
    (shared : SharedCache policy κ ν) (stage : CallStage κ ν ε ρ)
    (visit? : Option (Visit ν ε ρ)) : Prop where
  /-- A closure at work belongs to the thread that holds the lock. -/
  sound : stepwise.Sound
  /-- The thread holds the lock. -/
  holder : stepwise.system.holder = some number
  /-- The cache is as given. -/
  shared : stepwise.system.shared = shared
  /-- The thread is at the stage. -/
  stage : ∃ thread, stepwise.system.threads[number]? = some thread ∧ thread.stage = stage
  /-- The closure at work is as given. -/
  visit? : stepwise.visit? = visit?

/-- A thread has given the lock back and is about to return with an answer, and the cache is
left as given. -/
structure Released (stepwise : Stepwise policy κ ν ε ρ) (number : Nat)
    (outcome : Outcome (SharedCache policy κ ν) (Reply κ ν ε ρ)) : Prop where
  /-- No closure is at work. -/
  visit? : stepwise.visit? = none
  /-- The lock is free. -/
  holder : stepwise.system.holder = none
  /-- The cache is left as given. -/
  shared : stepwise.system.shared = outcome.state
  /-- The thread returns with the answer. -/
  stage : ∃ thread, stepwise.system.threads[number]? = some thread ∧
    thread.stage = .leaving outcome.answer

/-- However the steps of the threads come, by the time that one thread has taken a number of them
it has given the lock back. -/
def Releases (stepwise : Stepwise policy κ ν ε ρ) (number steps : Nat)
    (outcome : Outcome (SharedCache policy κ ν) (Reply κ ν ε ρ)) : Prop :=
  ∀ schedule : List Nat, steps ≤ schedule.count number →
    ∃ front back, schedule = front ++ back ∧ (stepwise.run front).Released number outcome

/-- A step of a thread that does not hold the lock is not one of a closure. -/
theorem Sound.step_of_ne (sound : stepwise.Sound) (held : stepwise.system.holder = some number)
    (apart : other ≠ number) :
    stepwise.step other = ⟨stepwise.system.step other, stepwise.visit?⟩ := by
  obtain ⟨system, visit?⟩ := stepwise
  rw [Stepwise.step]
  cases visit? with
  | none =>
    dsimp only
    split
    · next key closure runs =>
      obtain ⟨thread, call, found, stage, _⟩ := System.exists_thread_of_closure? runs
      have entered := sound.exclusive other thread found (by rw [stage]; exact trivial)
      exact absurd (Option.some.inj (entered.symm.trans held)) apart
    · rfl
  | some visit =>
    have owned := (sound.holder visit rfl).symm.trans held
    exact if_neg fun same => apart (same.symm.trans (Option.some.inj owned))

namespace Stands

/-- Steps of other threads leave the thread that holds the lock where it stands. -/
theorem beside (stands : stepwise.Stands number shared stage visit?) (apart : other ≠ number) :
    (stepwise.step other).Stands number shared stage visit? := by
  have sound : (stepwise.step other).Sound := stands.sound.step other
  obtain ⟨same, holder, threads⟩ := stands.sound.exclusive.step_beside stands.holder apart
  rw [stands.sound.step_of_ne stands.holder apart] at sound ⊢
  exact ⟨sound, holder, same.trans stands.shared, threads ▸ stands.stage, stands.visit?⟩

/-- If a step of the thread leads to where a number of steps release the lock, one step more
does. -/
theorem releases_succ {steps : Nat} (stands : stepwise.Stands number shared stage visit?)
    (next : ∀ {stepwise : Stepwise policy κ ν ε ρ}, stepwise.Stands number shared stage visit? →
      (stepwise.step number).Releases number steps outcome) :
    stepwise.Releases number (steps + 1) outcome := by
  intro schedule enough
  induction schedule generalizing stepwise with
  | nil => cases enough
  | cons first rest ih =>
    by_cases own : first = number
    · subst own
      rw [List.count_cons_self] at enough
      obtain ⟨front, back, rfl, released⟩ := next stands rest (Nat.le_of_succ_le_succ enough)
      exact ⟨first :: front, back, rfl, released⟩
    · rw [List.count_cons_of_ne own] at enough
      obtain ⟨front, back, rfl, released⟩ := ih (stands.beside own) enough
      exact ⟨first :: front, back, rfl, released⟩

/-- A thread without a closure takes the step of a call. -/
theorem step_eq (stands : stepwise.Stands number shared stage none)
    (without : stage.closure? = none) :
    stepwise.step number = ⟨stepwise.system.step number, none⟩ := by
  obtain ⟨thread, found, rfl⟩ := stands.stage
  have still : stepwise.system.closure? number = none := by
    rw [System.closure?, found]
    exact without
  rw [Stepwise.step, stands.visit?]
  dsimp only
  rw [still]

/-- The thread that runs a closure takes the next step of it. -/
theorem step_visit {visit : Visit ν ε ρ}
    (stands : stepwise.Stands number shared stage (some visit)) :
    stepwise.step number = resume stepwise.system visit := by
  have owned := (stands.sound.holder visit stands.visit?).symm.trans stands.holder
  rw [Stepwise.step, stands.visit?]
  exact if_pos (Option.some.inj owned)

/-- A thread with a closure looks its key up first. -/
theorem step_begin {call : SharedCall κ ν ε ρ} {key : κ} {closure : Closure ν ε ρ}
    (stands : stepwise.Stands number shared (.entered call) none)
    (runs : call.closure? = some (key, closure)) :
    stepwise.step number = begin stepwise.system number key closure := by
  obtain ⟨thread, found, stage⟩ := stands.stage
  have running : stepwise.system.closure? number = some (key, closure) := by
    rw [System.closure?, found, Option.bind_some, stage]
    exact runs
  rw [Stepwise.step, stands.visit?]
  dsimp only
  rw [running]

/-- A thread with its answer stands before giving the lock back. -/
theorem answered {reply : Reply κ ν ε ρ}
    (stands : stepwise.Stands number shared stage visit?) (guarded : Cache policy κ ν)
    (stepped : stepwise.step number =
      ⟨(stepwise.system.guard guarded).answer number reply, none⟩) :
    (stepwise.step number).Stands number { shared with guarded } (.worked reply) none := by
  have sound : (stepwise.step number).Sound := stands.sound.step number
  obtain ⟨thread, found, _⟩ := stands.stage
  rw [stepped] at sound ⊢
  refine ⟨sound, stands.holder, ?_, ⟨{ thread with stage := .worked reply }, ?_, rfl⟩, rfl⟩
  · rw [← stands.shared]
    rfl
  · exact (List.getElem?_modify_eq _ _ _).trans (congrArg _ found)

/-- A thread whose closure goes on stands where it stood. -/
theorem visiting {visit : Visit ν ε ρ}
    (stands : stepwise.Stands number shared stage visit?) (guarded : Cache policy κ ν)
    (stepped : stepwise.step number = ⟨stepwise.system.guard guarded, some visit⟩) :
    (stepwise.step number).Stands number { shared with guarded } stage (some visit) := by
  have sound : (stepwise.step number).Sound := stands.sound.step number
  rw [stepped] at sound ⊢
  refine ⟨sound, stands.holder, ?_, stands.stage, rfl⟩
  rw [← stands.shared]
  rfl

/-- A thread that has done its work gives the lock back. -/
theorem releases_worked {reply : Reply κ ν ε ρ} {events : List Event}
    (stands : stepwise.Stands number shared (.worked reply) none) :
    stepwise.Releases number 1 ⟨reply, shared, events⟩ := by
  refine stands.releases_succ fun {stepwise} stands schedule _ => ⟨[], schedule, rfl, ?_⟩
  obtain ⟨thread, found, stage⟩ := stands.stage
  have bound : number < stepwise.system.threads.length := (List.getElem?_eq_some_iff.mp found).1
  change (stepwise.step number).Released number _
  rw [stands.step_eq rfl, System.step_of_worked found stage]
  exact ⟨rfl, rfl, stands.shared, _, List.getElem?_set_self bound, rfl⟩

/-- A thread does the work of a call without a closure in one step. -/
theorem releases_entered {call : SharedCall κ ν ε ρ}
    (stands : stepwise.Stands number shared (.entered call) none)
    (runs : call.closure? = none) : stepwise.Releases number 2 (shared.perform call) := by
  refine stands.releases_succ fun {stepwise} stands => ?_
  have worked : (stepwise.step number).Stands number (shared.perform call).state
      (.worked (shared.perform call).answer) none := by
    have sound : (stepwise.step number).Sound := stands.sound.step number
    obtain ⟨thread, found, stage⟩ := stands.stage
    have bound : number < stepwise.system.threads.length :=
      (List.getElem?_eq_some_iff.mp found).1
    rw [stands.step_eq runs, System.step_of_entered found stage, stands.shared] at sound ⊢
    exact ⟨sound, stands.holder, rfl, ⟨_, List.getElem?_set_self bound, rfl⟩, rfl⟩
  exact worked.releases_worked

/-- A closure at work leaves the value that it writes last, and its thread gives the lock
back. -/
theorem exists_releases_visit (number : Nat) (stage : CallStage κ ν ε ρ) {slot : SlotId}
    (rest : Closure ν ε ρ) (shared : SharedCache policy κ ν)
    {entry : Entry κ ν policy.Metadata}
    (held : shared.guarded.entryAt? slot = some entry) :
    ∃ steps, ∀ {stepwise : Stepwise policy κ ν ε ρ},
      stepwise.Stands number shared stage (some ⟨number, slot, rest⟩) →
        stepwise.Releases number steps
          ⟨.result (some (rest.run entry.value).2), { shared with
            guarded := shared.guarded.setValue slot (rest.run entry.value).1 }, []⟩ := by
  -- The cache and the entry change with every write, so both are free in the induction.
  induction rest generalizing shared entry with
  | finish result =>
    refine ⟨2, fun stands => stands.releases_succ fun {stepwise} stands => ?_⟩
    obtain rfl := stands.shared
    have worked := stands.answered stepwise.system.shared.guarded stands.step_visit
    rw [Closure.run]
    dsimp only
    rw [Cache.setValue_self held]
    exact worked.releases_worked
  | read next ih =>
    obtain ⟨steps, releases⟩ := ih entry.value shared held
    refine ⟨steps + 1, fun stands => stands.releases_succ fun {stepwise} stands => releases ?_⟩
    obtain rfl := stands.shared
    refine stands.visiting stepwise.system.shared.guarded ?_
    rw [stands.step_visit, resume]
    dsimp only
    rw [held]
    rfl
  | write value next ih =>
    have renewed := Cache.entryAt?_setValue held value
    obtain ⟨steps, releases⟩ :=
      ih { shared with guarded := shared.guarded.setValue slot value } renewed
    refine ⟨steps + 1, fun stands => stands.releases_succ fun {stepwise} stands => ?_⟩
    obtain rfl := stands.shared
    have written := releases (stands.visiting _ stands.step_visit)
    rw [Cache.setValue_setValue] at written
    exact written

/-- A thread that has taken the lock gives it back after a number of steps, and has done its
call. -/
theorem exists_releases {call : SharedCall κ ν ε ρ}
    (stands : stepwise.Stands number shared (.entered call) none) :
    ∃ steps, stepwise.Releases number steps (shared.perform call) := by
  cases runs : call.closure? with
  | none => exact ⟨2, stands.releases_entered runs⟩
  | some run =>
    obtain ⟨key, closure⟩ := run
    rw [shared.perform_of_closure? runs, SharedCache.getMutWith, SharedCache.locked]
    rcases accessed : shared.guarded.access key with ⟨_ | ⟨slot, entry⟩, guarded⟩
    · rw [Cache.visit_of_none accessed]
      refine ⟨2, stands.releases_succ fun {stepwise} stands => ?_⟩
      obtain rfl := stands.shared
      have worked := stands.answered guarded ((stands.step_begin runs).trans (by
        rw [begin, accessed]))
      exact worked.releases_worked
    · rw [Cache.visit_of_some accessed]
      have held : guarded.entryAt? slot = some entry := Cache.entryAt?_access accessed
      obtain ⟨steps, releases⟩ :=
        exists_releases_visit number (.entered call) closure { shared with guarded } held
      refine ⟨steps + 1, stands.releases_succ fun {stepwise} stands => ?_⟩
      obtain rfl := stands.shared
      exact releases (stands.visiting guarded ((stands.step_begin runs).trans (by
        rw [begin, accessed])))

end Stands

/-- A thread between taking the lock and its work gives the lock back after a number of steps,
and has done its call. -/
theorem Sound.exists_releases (sound : stepwise.Sound) (still : stepwise.visit? = none)
    {thread : Thread κ ν ε ρ} {call : SharedCall κ ν ε ρ}
    (found : stepwise.system.threads[number]? = some thread)
    (stage : thread.stage = .entered call) :
    ∃ steps, stepwise.Releases number steps (stepwise.system.shared.perform call) := by
  have held : stepwise.system.holder = some number :=
    sound.exclusive number thread found (by rw [stage]; exact trivial)
  have stands : stepwise.Stands number stepwise.system.shared (.entered call) none :=
    ⟨sound, held, rfl, ⟨thread, found, stage⟩, still⟩
  exact stands.exists_releases

end Stepwise

end EvictionCache
