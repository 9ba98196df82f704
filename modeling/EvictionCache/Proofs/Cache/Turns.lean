import EvictionCache.Cache.Call

/-!
# Turns

A turn is one call together with the cache that it finds. What a call counts depends on both: a
lookup is a hit if its key is present, storing a value inserts or updates, and an insertion
evicts if the cache is full. `Turn.tally` says what a turn should count, read off the call, its
answer and the keys that are present, never off the counters. Storing several pairs is a series
of turns, one for each pair. Asking for the metrics is no turn: it leaves what was there
(`Cache.serveAll_frame`).
-/
namespace EvictionCache

variable {policy : Policy} {κ ν ε ρ : Type}

/-- The number of entries that an event reports as cleared. -/
def Event.cleared : Event → Nat
  | clearing _ entries => entries
  | cacheCreated _ _ | sharedCacheCreated _ _ _ | evicted _ | sketchCreated _ _ | sketchCleared => 0

/-- The number of entries that all events of a log together report as cleared. -/
def clearedIn : List Event → Nat
  | [] => 0
  | event :: log => event.cleared + clearedIn log

/-- A longer log reports what its parts report. -/
@[simp] theorem clearedIn_append (log more : List Event) :
    clearedIn (log ++ more) = clearedIn log + clearedIn more := by
  induction log with
  | nil => exact (Nat.zero_add _).symm
  | cons event log ih => rw [List.cons_append, clearedIn, clearedIn, ih, Nat.add_assoc]

/-- Whether the pair made room for another key. -/
def Displaced.madeRoom : Displaced κ ν → Bool
  | replaced _ _ => false
  | evicted _ _ => true

/-- Whether an answer hands out something. -/
def Reply.found : Reply κ ν ε ρ → Bool
  | value answer => answer.isSome
  | result answer => answer.isSome
  | pair answer => answer.isSome
  | count answer => answer.isSome
  | pairs _ | number _ | truth _ | metrics _ | report _ | done => false

namespace Call

/-- The key that a call is about. -/
def key? : Call κ ν ε ρ → Option κ
  | get key | getMut key _ | getWith key _ | getMutWith key _ | peek key | put key _ | push key _
  | remove key | frequency key | containsKey key => some key
  | extend _ | pop | clear | containsValue _ | isEmpty | size | capacity | candidate
  | toList => none

/-- Whether a call looks a key up as an access. -/
def looksUp : Call κ ν ε ρ → Bool
  | get _ | getMut _ _ | getWith _ _ | getMutWith _ _ => true
  | _ => false

/-- Whether a call stores a value under a key. -/
def stores : Call κ ν ε ρ → Bool
  | put _ _ | push _ _ => true
  | _ => false

/-- Whether a call asks for an entry to be removed. -/
def removes : Call κ ν ε ρ → Bool
  | remove _ | pop => true
  | _ => false

/-- The calls that do one by one what a call does. -/
def singly : Call κ ν ε ρ → List (Call κ ν ε ρ)
  | extend pairs => pairs.map fun pair => put pair.1 pair.2
  | call => [call]

/-- Whether a call does one thing only. -/
def Single : Call κ ν ε ρ → Prop
  | extend _ => False
  | _ => True

/-- What a call does is done one by one in the end. -/
theorem single_of_mem_singly {call part : Call κ ν ε ρ} (member : part ∈ call.singly) :
    part.Single := by
  cases call with
  | extend pairs =>
    obtain ⟨pair, _, rfl⟩ := List.mem_map.mp member
    exact trivial
  | _ =>
    obtain rfl := List.mem_singleton.mp member
    exact trivial

/-- So is what several calls do. -/
theorem single_of_mem_flatMap_singly {calls : List (Call κ ν ε ρ)} {part : Call κ ν ε ρ}
    (member : part ∈ calls.flatMap singly) : part.Single := by
  obtain ⟨call, _, listed⟩ := List.mem_flatMap.mp member
  exact single_of_mem_singly listed

end Call

/-- The key that a request is about. -/
def Request.key? (request : Request κ ν ε ρ) : Option κ := request.call?.bind Call.key?

/-- A request that is about a key is a call on it. -/
theorem Request.exists_call {request : Request κ ν ε ρ} {key : κ}
    (keyed : request.key? = some key) :
    ∃ call, request = .call call ∧ call.key? = some key := by
  cases request with
  | call call => exact ⟨call, rfl, keyed⟩
  | metrics | report => cases keyed

namespace CoreMetrics

variable (metrics other another : CoreMetrics)

/-- What is counted in parts is counted together. -/
theorem merge_assoc :
    (metrics.merge other).merge another = metrics.merge (other.merge another) := by
  simp only [merge, Nat.add_assoc]

end CoreMetrics

/-- A call and the cache that it finds. -/
structure Turn (policy : Policy) (κ ν ε ρ : Type) [BEq κ] [Hashable κ] where
  /-- The cache before the call. -/
  cache : Cache policy κ ν
  /-- The call. -/
  call : Call κ ν ε ρ

namespace Turn

variable [BEq κ] [Hashable κ]

/-- Whether the key of the call is present. -/
def finds (turn : Turn policy κ ν ε ρ) : Bool := turn.call.key?.any turn.cache.containsKey

/-- Whether the call is a lookup that finds its key. -/
def hits (turn : Turn policy κ ν ε ρ) : Bool := turn.call.looksUp && turn.finds

/-- Whether the call stores a value under a key that is absent. -/
def inserts (turn : Turn policy κ ν ε ρ) : Bool := turn.call.stores && !turn.finds

/-- Whether the call stores a value under a key that is present. -/
def updates (turn : Turn policy κ ν ε ρ) : Bool := turn.call.stores && turn.finds

/-- What the call displaces if it stores a value. -/
def displaced? (turn : Turn policy κ ν ε ρ) : Option (Displaced κ ν) :=
  match turn.call with
  | .put key value | .push key value => (turn.cache.insert key value).answer
  | _ => none

/-- Whether the call stores a value and another entry leaves for it. -/
def evicts (turn : Turn policy κ ν ε ρ) : Bool := turn.displaced?.any Displaced.madeRoom

/-- The turns of a kind are those that find their keys and those that do not. -/
theorem countP_finds_add (turns : List (Turn policy κ ν ε ρ)) (kind : Turn policy κ ν ε ρ → Bool) :
    (turns.countP fun turn => kind turn && turn.finds) +
      (turns.countP fun turn => kind turn && !turn.finds) = turns.countP kind := by
  rw [List.countP_eq_countP_filter_add turns kind finds, List.countP_filter, List.countP_filter]

variable [BEq ν]

/-- What comes of the call. -/
def outcome (turn : Turn policy κ ν ε ρ) : Outcome (Cache policy κ ν) (Reply κ ν ε ρ) :=
  turn.cache.perform turn.call

/-- Whether the call asks for an entry to be removed and gets one. -/
def removes (turn : Turn policy κ ν ε ρ) : Bool :=
  turn.call.removes && turn.outcome.answer.found

/-- What the turn should count. -/
def tally (turn : Turn policy κ ν ε ρ) : CoreMetrics where
  requests := turn.call.looksUp.toNat
  hits := turn.hits.toNat
  insertions := turn.inserts.toNat
  updates := turn.updates.toNat
  evictions := turn.evicts.toNat
  removals := turn.removes.toNat

/-- What several turns should count. -/
def tallyAll (turns : List (Turn policy κ ν ε ρ)) : CoreMetrics :=
  turns.foldr (fun turn counted => turn.tally.merge counted) .fresh

/-- Each figure of a tally is the number of turns of its kind. -/
theorem tallyAll_eq (turns : List (Turn policy κ ν ε ρ)) :
    tallyAll turns = {
      requests := turns.countP fun turn => turn.call.looksUp
      hits := turns.countP hits
      insertions := turns.countP inserts
      updates := turns.countP updates
      evictions := turns.countP evicts
      removals := turns.countP removes } := by
  have step : ∀ (kind : Turn policy κ ν ε ρ → Bool) turn rest,
      (turn :: rest).countP kind = (kind turn).toNat + rest.countP kind := by
    intro kind turn rest
    rw [List.countP_cons, Nat.add_comm]
    cases kind turn <;> rfl
  induction turns with
  | nil => rfl
  | cons turn rest ih =>
    rw [tallyAll, List.foldr_cons, ← tallyAll, ih]
    simp only [step]
    rfl

/-- Turns of which each finds the cache that the one before left, from a first cache to a
last. -/
inductive Lead : Cache policy κ ν → List (Turn policy κ ν ε ρ) → Cache policy κ ν → Prop where
  /-- Without a turn the cache stays as it is. -/
  | nil (cache : Cache policy κ ν) : Lead cache [] cache
  /-- One turn and then more. -/
  | cons (turn : Turn policy κ ν ε ρ) {rest : List (Turn policy κ ν ε ρ)}
      {last : Cache policy κ ν} (later : Lead turn.outcome.state rest last) :
      Lead turn.cache (turn :: rest) last

/-- Turns that lead to a cache are continued by turns that lead from it. -/
theorem Lead.append {first between last : Cache policy κ ν}
    {turns more : List (Turn policy κ ν ε ρ)} (lead : Lead first turns between)
    (later : Lead between more last) : Lead first (turns ++ more) last := by
  induction lead with
  | nil => exact later
  | cons turn _ ih => exact .cons turn (ih later)

end Turn

namespace Cache

variable [BEq κ] [Hashable κ] [BEq ν]

/-- The turns of calls that are carried out one after another. -/
def turns (cache : Cache policy κ ν) : List (Call κ ν ε ρ) → List (Turn policy κ ν ε ρ)
  | [] => []
  | call :: rest => ⟨cache, call⟩ :: (cache.perform call).state.turns rest

/-- The turns of a run lead from its first to its last state, and each logs its part. -/
theorem turns_lead (cache : Cache policy κ ν) (calls : List (Call κ ν ε ρ)) :
    Turn.Lead cache (cache.turns calls) (cache.run calls).state ∧
      (cache.run calls).events = (cache.turns calls).flatMap fun turn => turn.outcome.events := by
  induction calls generalizing cache with
  | nil => exact ⟨.nil cache, rfl⟩
  | cons call rest ih =>
    obtain ⟨later, events⟩ := ih (cache.perform call).state
    exact ⟨.cons ⟨cache, call⟩ later, congrArg ((cache.perform call).events ++ ·) events⟩

/-- There is a turn for each call. -/
@[simp] theorem map_call_turns (cache : Cache policy κ ν) (calls : List (Call κ ν ε ρ)) :
    (cache.turns calls).map Turn.call = calls := by
  induction calls generalizing cache with
  | nil => rfl
  | cons call rest ih => exact congrArg (call :: ·) (ih _)

/-- Runs may be cut in two. -/
theorem run_append (cache : Cache policy κ ν) (calls more : List (Call κ ν ε ρ)) :
    (cache.run (calls ++ more)).state = ((cache.run calls).state.run more).state ∧
      (cache.run (calls ++ more)).events =
        (cache.run calls).events ++ ((cache.run calls).state.run more).events := by
  induction calls generalizing cache with
  | nil => exact ⟨rfl, rfl⟩
  | cons call rest ih =>
    obtain ⟨state, events⟩ := ih (cache.perform call).state
    refine ⟨state, ?_⟩
    exact (congrArg ((cache.perform call).events ++ ·) events).trans (List.append_assoc _ _ _).symm

/-- Turns of calls are made one after another. -/
theorem turns_append (cache : Cache policy κ ν) (calls more : List (Call κ ν ε ρ)) :
    cache.turns (calls ++ more) = cache.turns calls ++ (cache.run calls).state.turns more := by
  induction calls generalizing cache with
  | nil => rfl
  | cons call rest ih => exact congrArg (⟨cache, call⟩ :: ·) (ih _)

/-- Storing several pairs leaves the state and the events of storing each. -/
theorem run_puts (cache : Cache policy κ ν) (pairs : List (κ × ν)) :
    let puts : List (Call κ ν ε ρ) := pairs.map fun pair => .put pair.1 pair.2
    (cache.run puts).state = (cache.extend pairs).state ∧
      (cache.run puts).events = (cache.extend pairs).events := by
  induction pairs generalizing cache with
  | nil => exact ⟨rfl, rfl⟩
  | cons pair rest ih =>
    obtain ⟨state, events⟩ := ih (cache.put pair.1 pair.2).state
    exact ⟨state, congrArg ((cache.put pair.1 pair.2).events ++ ·) events⟩

/-- A call leaves the state and the events of what it does one by one. -/
theorem run_singly (cache : Cache policy κ ν) (call : Call κ ν ε ρ) :
    (cache.run call.singly).state = (cache.perform call).state ∧
      (cache.run call.singly).events = (cache.perform call).events := by
  cases call with
  | extend pairs => exact cache.run_puts pairs
  | _ => exact ⟨rfl, List.append_nil _⟩

/-- Calls leave the state and the events of what they do one by one. -/
theorem run_flatMap_singly (cache : Cache policy κ ν) (calls : List (Call κ ν ε ρ)) :
    (cache.run (calls.flatMap Call.singly)).state = (cache.run calls).state ∧
      (cache.run (calls.flatMap Call.singly)).events = (cache.run calls).events := by
  induction calls generalizing cache with
  | nil => exact ⟨rfl, rfl⟩
  | cons call rest ih =>
    obtain ⟨joined, logged⟩ := cache.run_append call.singly (rest.flatMap Call.singly)
    obtain ⟨one, events⟩ := cache.run_singly call
    obtain ⟨others, more⟩ := ih (cache.perform call).state
    rw [List.flatMap_cons, joined, logged, one, events]
    exact ⟨others, congrArg ((cache.perform call).events ++ ·) more⟩

/-- The turns of what calls do one by one lead to where the calls lead, and each does one thing
only. -/
theorem turns_singly_lead (cache : Cache policy κ ν) (calls : List (Call κ ν ε ρ)) :
    Turn.Lead cache (cache.turns (calls.flatMap Call.singly)) (cache.run calls).state ∧
      ∀ turn ∈ cache.turns (calls.flatMap Call.singly), turn.call.Single := by
  have lead := (cache.turns_lead (calls.flatMap Call.singly)).1
  rw [(cache.run_flatMap_singly calls).1] at lead
  refine ⟨lead, fun turn member => ?_⟩
  have called := List.mem_map_of_mem (f := Turn.call) member
  rw [map_call_turns] at called
  exact Call.single_of_mem_flatMap_singly called

/-- There is one answer to each request. -/
theorem length_serveAll (cache : Cache policy κ ν) (requests : List (Request κ ν ε ρ)) :
    (cache.serveAll requests).answer.length = requests.length := by
  induction requests generalizing cache with
  | nil => rfl
  | cons request rest ih => exact congrArg (· + 1) (ih _)

/-- Requests are continued by one more. -/
theorem serveAll_concat (cache : Cache policy κ ν) (requests : List (Request κ ν ε ρ))
    (request : Request κ ν ε ρ) :
    cache.serveAll (requests ++ [request]) =
      (cache.serveAll requests).andThen fun replies after =>
        (after.serve request).map fun reply => replies ++ [reply] := by
  induction requests generalizing cache with
  | nil => simp [serveAll, Outcome.andThen, Outcome.map, Outcome.silent]
  | cons first rest ih =>
    simp only [List.cons_append, serveAll, ih, Outcome.andThen, Outcome.map, List.append_assoc]

/-- Requests leave the state and the events of the calls among them. -/
theorem serveAll_frame (cache : Cache policy κ ν) (requests : List (Request κ ν ε ρ)) :
    (cache.serveAll requests).state = (cache.run (requests.filterMap Request.call?)).state ∧
      (cache.serveAll requests).events =
        (cache.run (requests.filterMap Request.call?)).events := by
  induction requests generalizing cache with
  | nil => exact ⟨rfl, rfl⟩
  | cons request rest ih =>
    cases request with
    | call call =>
      obtain ⟨state, events⟩ := ih (cache.perform call).state
      exact ⟨state, congrArg ((cache.perform call).events ++ ·) events⟩
    | metrics | report => exact ih cache

end Cache

end EvictionCache
