import EvictionCache.Event

/-!
# Outcomes that match

Two systems that do the same are shown to do so operation by operation: the outcomes give the
same answer, cause the same events and leave states that are related. What matches can be
continued by what matches.
-/
namespace EvictionCache.Outcome

variable {σ τ α β : Type} {Related : σ → τ → Prop}

/-- Outcomes that differ at most in their states, which are related. -/
structure Matches (Related : σ → τ → Prop) (left : Outcome σ α) (right : Outcome τ α) :
    Prop where
  /-- Both give the same answer. -/
  answer : left.answer = right.answer
  /-- Both leave related states. -/
  state : Related left.state right.state
  /-- Both cause the same events. -/
  events : left.events = right.events

namespace Matches

variable {left : Outcome σ α} {right : Outcome τ α}

/-- Looking at related states matches if it finds the same. -/
theorem silent {one : σ} {other : τ} {found answer : α} (related : Related one other)
    (same : found = answer) : Matches Related (.silent found one) (.silent answer other) :=
  ⟨same, related, rfl⟩

/-- Answers may be changed in the same way. -/
theorem map (matching : Matches Related left right) (change : α → β) :
    Matches Related (left.map change) (right.map change) :=
  ⟨congrArg change matching.answer, matching.state, matching.events⟩

/-- What matches in the states that were left matches as a continuation. -/
theorem andThen (matching : Matches Related left right) {next : α → σ → Outcome σ β}
    {follow : α → τ → Outcome τ β}
    (continued : ∀ one, Related one right.state →
      Matches Related (next right.answer one) (follow right.answer right.state)) :
    Matches Related (left.andThen next) (right.andThen follow) := by
  obtain ⟨answer, one, events⟩ := left
  obtain ⟨_, other, _⟩ := right
  obtain ⟨rfl, related, rfl⟩ := matching
  have later := continued one related
  exact ⟨later.answer, later.state, congrArg (events ++ ·) later.events⟩

end Matches

end EvictionCache.Outcome
