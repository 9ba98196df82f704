import EvictionCache.Proofs.Cache.Figures
import EvictionCache.Proofs.Queue.Departures

/-!
# What a queue counts

A queue keeps no metrics, but everything that a cache counts can be read off its queue: which
keys a call finds, whether it has to make room, and what an entry carries before it is accessed.
`Queue.ledger` adds that up over a run. The metrics of a cache after a run are the ledger of its
queue, so nothing that a queue leaves out, such as the slots of entries or the hashes of keys,
has a part in them.
-/
namespace EvictionCache

variable {policy : Policy} {κ ν ε ρ : Type}

/-- The figures with a number of buckets taken down, where buckets are counted. -/
def Policy.withBuckets : (policy : Policy) → policy.Usage → Nat → policy.Usage
  | .lru, _, _ => ()
  | .lfu, usage, _ => usage
  | .lfru, usage, buckets => BucketUsage.observe usage buckets

/-- Only the number of buckets is missing from what adds up. -/
theorem Metrics.eq_withBuckets {metrics counted : Metrics policy} {buckets : Nat}
    (same : metrics.counted = counted)
    (known : ∀ active ∈ policy.activeBuckets? metrics.usage, active = buckets) :
    metrics = { counted with usage := policy.withBuckets counted.usage buckets } := by
  subst same
  cases policy with
  | lru | lfu => rfl
  | lfru =>
    have active : metrics.usage.activeBuckets = buckets := known _ rfl
    rw [← active]
    rfl

namespace Queue

variable [BEq κ]

/-- Whether the key of a call is in the queue. -/
def finds (queue : Queue policy κ ν) (call : Call κ ν ε ρ) : Bool :=
  call.key?.any fun key => (queue.find? key).isSome

variable [BEq ν]

/-- What a call should count. -/
def tally (queue : Queue policy κ ν) (call : Call κ ν ε ρ) : CoreMetrics where
  requests := call.looksUp.toNat
  hits := (call.looksUp && queue.finds call).toNat
  insertions := (queue.inserts call).toNat
  updates := (call.stores && queue.finds call).toNat
  evictions := (queue.inserts call && decide (queue.capacity ≤ queue.entries.length)).toNat
  removals := (call.removes && (queue.perform call).answer.found).toNat

/-- All that a call should count. -/
def figures (queue : Queue policy κ ν) (call : Call κ ν ε ρ) : Metrics policy :=
  ⟨queue.tally call, policy.added (queue.accessed? call)⟩

/-- What calls should count that are made one after another, apart from the number of buckets. -/
def figuresAll (queue : Queue policy κ ν) : List (Call κ ν ε ρ) → Metrics policy
  | [] => 0
  | call :: rest => queue.figures call + figuresAll (queue.perform call).state rest

/-- The metrics after a run. Pairs that are stored together count as stored one by one, and there
are as many buckets as there are different counts in the end. -/
def ledger (queue : Queue policy κ ν) (calls : List (Call κ ν ε ρ)) : Metrics policy :=
  let counted := queue.figuresAll (calls.flatMap Call.singly)
  let buckets := (countsOf (queue.run calls).state.sights).dedup.length
  { counted with usage := policy.withBuckets counted.usage buckets }

/-- The answers to requests that come after some calls. Requests for metrics are answered from the
ledger of the calls before them. -/
def answers (queue : Queue policy κ ν) (past : List (Call κ ν ε ρ)) :
    List (Request κ ν ε ρ) → List (Reply κ ν ε ρ)
  | [] => []
  | .call call :: rest =>
    ((queue.run past).state.perform call).answer :: queue.answers (past ++ [call]) rest
  | .metrics :: rest => .metrics (queue.ledger past) :: queue.answers past rest
  | .report :: rest => .report (queue.ledger past).report :: queue.answers past rest

end Queue

namespace Cache.Represents

variable [BEq κ] [Hashable κ] [EquivBEq κ] [LawfulHashable κ] {cache : Cache policy κ ν}
  {queue : Queue policy κ ν}

/-- A turn finds the key that the queue finds. -/
theorem finds_eq (represents : cache.Represents queue) (call : Call κ ν ε ρ) :
    Turn.finds ⟨cache, call⟩ = queue.finds call := by
  have known : cache.containsKey = fun key => (queue.find? key).isSome :=
    funext represents.containsKey_eq
  exact congrArg call.key?.any known

/-- A turn inserts what the queue inserts. -/
theorem inserts_eq (represents : cache.Represents queue) (call : Call κ ν ε ρ) :
    Turn.inserts ⟨cache, call⟩ = queue.inserts call :=
  congrArg (fun found => call.stores && !found) (represents.finds_eq call)

variable [BEq ν]

/-- A turn should count what can be read off the queue. -/
theorem tally_eq (represents : cache.Represents queue) {call : Call κ ν ε ρ}
    (single : call.Single) : Turn.tally ⟨cache, call⟩ = queue.tally call := by
  have finds := represents.finds_eq call
  have inserts := represents.inserts_eq call
  have evicts : Turn.evicts ⟨cache, call⟩ =
      (queue.inserts call && decide (queue.capacity ≤ queue.entries.length)) := by
    rw [Bool.eq_iff_iff, (Turn.kept represents single).evicts_iff, inserts, represents.capacity_eq,
      represents.size_eq, Bool.and_eq_true, decide_eq_true_iff]
  have removes : Turn.removes ⟨cache, call⟩ =
      (call.removes && (queue.perform call).answer.found) := by
    rw [Turn.removes, Turn.outcome, (represents.perform call).answer]
  rw [Turn.tally, Queue.tally, Turn.hits, Turn.updates, finds, inserts, evicts, removes]

/-- All that a turn should count can be read off the queue. -/
theorem figures_eq (represents : cache.Represents queue) {call : Call κ ν ε ρ}
    (single : call.Single) : Turn.figures ⟨cache, call⟩ = queue.figures call :=
  congrArg₂ Metrics.mk (represents.tally_eq single)
    (congrArg policy.added (represents.accessed?_eq call))

/-- What adds up is added up along the queue. -/
theorem counted_run_single (represents : cache.Represents queue) {calls : List (Call κ ν ε ρ)}
    (single : ∀ call ∈ calls, call.Single) :
    (cache.run calls).state.metrics.counted = cache.metrics.counted + queue.figuresAll calls := by
  induction calls generalizing cache queue with
  | nil => exact (add_zero _).symm
  | cons call rest ih =>
    obtain ⟨first, others⟩ := List.forall_mem_cons.mp single
    have later := ih (represents.perform call).state others
    rw [represents.counted_perform first, represents.figures_eq first, add_assoc] at later
    exact later

end Cache.Represents

/-- The metrics of a new cache after a run are the ledger of a queue. -/
theorem Cache.metrics_run [BEq κ] [Hashable κ] [EquivBEq κ] [LawfulHashable κ] [BEq ν]
    (config : CacheConfig) (calls : List (Call κ ν ε ρ)) :
    ((ofConfig config : Cache policy κ ν).run calls).state.metrics =
      (Queue.ofCapacity config.capacity).ledger calls := by
  let start : Cache policy κ ν := .ofConfig config
  have new : start.Represents (.ofCapacity config.capacity) := represents_ofConfig config
  have blank : start.metrics.counted = 0 := by cases policy <;> rfl
  have single : ∀ call ∈ calls.flatMap Call.singly, call.Single :=
    fun _ => Call.single_of_mem_flatMap_singly
  have counted := new.counted_run_single single
  rw [(start.run_flatMap_singly calls).1, blank, zero_add] at counted
  -- The number of buckets is not added up, so it is taken from the state after the run.
  refine Metrics.eq_withBuckets counted fun active member => ?_
  cases policy with
  | lru | lfu => cases member
  | lfru =>
    obtain rfl := Option.some.inj member
    exact (activeBuckets_run config calls).trans
      (congrArg (fun sights => (countsOf sights).dedup.length)
        (new.run calls).state.observe_sights)

/-- What a new cache answers after some calls can be read off its queue. -/
theorem Cache.answer_serveAll_run [BEq κ] [Hashable κ] [EquivBEq κ] [LawfulHashable κ] [BEq ν]
    (config : CacheConfig) (past : List (Call κ ν ε ρ)) (requests : List (Request κ ν ε ρ)) :
    (((ofConfig config : Cache policy κ ν).run past).state.serveAll requests).answer =
      (Queue.ofCapacity config.capacity : Queue policy κ ν).answers past requests := by
  let start : Cache policy κ ν := .ofConfig config
  induction requests generalizing past with
  | nil => rfl
  | cons request rest ih =>
    have counted : (start.run past).state.metrics = _ := metrics_run config past
    cases request with
    | call call =>
      have reached : (start.run past).state.Represents _ :=
        ((represents_ofConfig config).run past).state
      have later := ih (past ++ [call])
      rw [(start.run_append past [call]).1] at later
      exact congrArg₂ List.cons (reached.perform call).answer later
    | metrics => exact congrArg₂ List.cons (congrArg Reply.metrics counted) (ih past)
    | report =>
      have reported : (start.run past).state.metrics.report = _ := congrArg Metrics.report counted
      exact congrArg₂ List.cons (congrArg Reply.report reported) (ih past)

end EvictionCache
