import EvictionCache.Proofs.Cache.Figures
import EvictionCache.Proofs.Cache.Standing
import EvictionCache.Proofs.Queue.Ties
import EvictionCache.Workload.Key
import Mathlib

/-!
# Policies that differ on ties only

A cache that breaks ties between equal counts by insertion and one that breaks them by use are
asked the same. As long as no tie has to be broken, because whenever an entry is evicted or popped
one entry alone has the least count (`Cache.Untied`), both answer the same, hold the same and count
the same. They may still keep the entries of one count in different orders.
-/
namespace EvictionCache

variable {policy : Policy} {κ ν ε ρ : Type} [BEq κ] [Hashable κ]

/-- Whether one entry alone has the least count. -/
def Cache.Untied (cache : Cache policy κ ν) : Prop := SoleLeast (countsOf cache.observe.sights)

/-- Whether the first entry in the order of eviction leaves, for another or on request. -/
def Turn.TakesFirst (turn : Turn policy κ ν ε ρ) : Prop :=
  turn.evicts = true ∨ turn.call = .pop ∧ 0 < turn.cache.size

namespace Cache

/-- A cache that breaks ties by insertion and one that breaks them by use, which hold the same and
have counted the same. -/
structure Mirrors (ranked : Cache .lfu κ ν) (bucketed : Cache .lfru κ ν) : Prop where
  /-- One is in order. -/
  left : ranked.Represents ranked.queue
  /-- So is the other. -/
  right : bucketed.Represents bucketed.queue
  /-- They hold the same keys with the same values and counts. -/
  sights : ranked.queue.sights.Perm bucketed.queue.sights
  /-- The same number of entries fits. -/
  capacity : ranked.capacity = bucketed.capacity
  /-- The core counts are the same. -/
  core : ranked.metrics.core = bucketed.metrics.core
  /-- The same number of accesses was counted. -/
  increments : ranked.metrics.usage.increments = bucketed.metrics.usage.increments

/-- New caches of one capacity mirror each other. -/
theorem mirrors_ofConfig [EquivBEq κ] [LawfulHashable κ] {config other : CacheConfig}
    (capacity : config.capacity = other.capacity) :
    (ofConfig config : Cache .lfu κ ν).Mirrors (ofConfig other) where
  left := represents_ofConfig config
  right := represents_ofConfig other
  sights := .refl []
  capacity := congrArg Capacity.entries capacity
  core := rfl
  increments := rfl

namespace Mirrors

variable {ranked : Cache .lfu κ ν} {bucketed : Cache .lfru κ ν}

/-- Both have the same number of entries. -/
theorem size_eq (mirrors : ranked.Mirrors bucketed) : ranked.size = bucketed.size := by
  rw [mirrors.left.size_eq, mirrors.right.size_eq]
  exact Queue.length_eq_of_sights mirrors.sights

/-- The first entries look the same if one entry alone has the least count. -/
theorem heads_eq (mirrors : ranked.Mirrors bucketed) (untied : 0 < ranked.size → ranked.Untied) :
    ranked.queue.entries.head?.map (Policy.sight .lfu) =
      bucketed.queue.entries.head?.map (Policy.sight .lfru) := by
  by_cases empty : ranked.queue.entries = []
  · have lengths := Queue.length_eq_of_sights mirrors.sights
    rw [empty, eq_comm, List.length_nil, List.length_eq_zero_iff] at lengths
    rw [empty, lengths]
    rfl
  · have sole := untied (by rw [mirrors.left.size_eq]; exact List.length_pos_iff.mpr empty)
    rw [Untied, mirrors.left.observe_sights] at sole
    exact Queue.head?_sight_eq mirrors.sights mirrors.left.ordered mirrors.right.ordered sole

variable [EquivBEq κ] [LawfulHashable κ]

/-- A call finds its key in both or in neither. -/
theorem finds_eq (mirrors : ranked.Mirrors bucketed) (call : Call κ ν ε ρ) :
    Turn.finds ⟨ranked, call⟩ = Turn.finds ⟨bucketed, call⟩ := by
  have known : ranked.containsKey = bucketed.containsKey := by
    funext key
    have found : (ranked.queue.find? key).map _ = (bucketed.queue.find? key).map _ :=
      (Queue.shows_iff.mpr mirrors.sights).find?_eq (fun _ _ _ => rfl) mirrors.right.finds rfl
        fun _ => ()
    have present := congrArg Option.isSome found
    rwa [Option.isSome_map, Option.isSome_map, ← mirrors.left.containsKey_eq,
      ← mirrors.right.containsKey_eq] at present
  rw [Turn.finds, Turn.finds]
  exact congrArg call.key?.any known

variable [BEq ν]

/-- A call that does one thing only evicts an entry from both or from neither. -/
theorem evicts_eq (mirrors : ranked.Mirrors bucketed) {call : Call κ ν ε ρ}
    (single : call.Single) :
    Turn.evicts ⟨ranked, call⟩ = Turn.evicts ⟨bucketed, call⟩ := by
  rw [Bool.eq_iff_iff, (Turn.kept mirrors.left single).evicts_iff,
    (Turn.kept mirrors.right single).evicts_iff, Turn.inserts, Turn.inserts, mirrors.finds_eq,
    mirrors.capacity, mirrors.size_eq]

/-- A call that does one thing only adds as many accesses to both. -/
theorem increments_perform (mirrors : ranked.Mirrors bucketed) {call : Call κ ν ε ρ}
    (single : call.Single) :
    (ranked.perform call).state.metrics.usage.increments =
      (bucketed.perform call).state.metrics.usage.increments := by
  have left := congrArg (Policy.increments .lfu) (mirrors.left.usage_perform single)
  have right := congrArg (Policy.increments .lfru) (mirrors.right.usage_perform single)
  rw [Policy.increments_mergeUsage, Policy.increments_counted, Policy.increments_counted,
    Turn.usage, Policy.increments_added (by decide), mirrors.left.isSome_accessed?] at left
  rw [Policy.increments_mergeUsage, Policy.increments_counted, Policy.increments_counted,
    Turn.usage, Policy.increments_added (by decide), mirrors.right.isSome_accessed?,
    ← mirrors.finds_eq] at right
  exact left.trans ((congrArg (· + _) mirrors.increments).trans right.symm)

/-- A call that does one thing only is answered the same, unless it asks for the order, and goes
on mirroring, if no tie has to be broken for it. -/
theorem perform_single (mirrors : ranked.Mirrors bucketed) {call : Call κ ν ε ρ}
    (single : call.Single) (untied : Turn.TakesFirst ⟨ranked, call⟩ → ranked.Untied) :
    (call.asksOrder = false → (ranked.perform call).answer = (bucketed.perform call).answer) ∧
      (ranked.perform call).state.Mirrors (bucketed.perform call).state := by
  have one := mirrors.left.perform call
  have other := mirrors.right.perform call
  have evicting (key : κ) (stores : call.stores = true) (keyed : call.key? = some key)
      (absent : ranked.queue.find? key = none)
      (full : ranked.queue.capacity ≤ ranked.queue.entries.length) :
      ranked.queue.entries.head?.map (Policy.sight .lfu) =
        bucketed.queue.entries.head?.map (Policy.sight .lfru) := by
    refine mirrors.heads_eq fun _ => untied (.inl ?_)
    rw [(Turn.kept mirrors.left single).evicts_iff, Turn.inserts, Turn.finds, stores, keyed,
      Option.any_some, mirrors.left.containsKey_eq, absent, mirrors.left.size_eq]
    exact ⟨rfl, full⟩
  have popping (pops : call = .pop) : ranked.queue.entries.head?.map (Policy.sight .lfu) =
      bucketed.queue.entries.head?.map (Policy.sight .lfru) :=
    mirrors.heads_eq fun nonempty => untied (.inr ⟨pops, nonempty⟩)
  obtain ⟨answers, sights⟩ := Queue.perform_of_heads mirrors.sights mirrors.right.finds
    mirrors.capacity rfl single evicting popping
  rw [← one.answer, ← other.answer] at answers
  have removes : Turn.removes ⟨ranked, call⟩ = Turn.removes ⟨bucketed, call⟩ := by
    cases call with
    | remove | pop => exact congrArg Reply.found (answers rfl)
    | _ => rfl
  have tally : Turn.tally ⟨ranked, call⟩ = Turn.tally ⟨bucketed, call⟩ :=
    Turn.tally_congr rfl (mirrors.finds_eq call) (mirrors.evicts_eq single) removes
  exact ⟨answers, {
    left := by rw [one.state.queue_eq]; exact one.state
    right := by rw [other.state.queue_eq]; exact other.state
    sights := by rw [one.state.queue_eq, other.state.queue_eq]; exact sights
    capacity := by rw [capacity_perform, capacity_perform, mirrors.capacity]
    core := by
      rw [(mirrors.left.books_perform single).core, (mirrors.right.books_perform single).core,
        mirrors.core, tally]
    increments := mirrors.increments_perform single }⟩

/-- Calls that do one thing each go on mirroring, if no tie has to be broken for them. -/
theorem run_single (mirrors : ranked.Mirrors bucketed) {calls : List (Call κ ν ε ρ)}
    (single : ∀ call ∈ calls, call.Single)
    (untied : ∀ turn ∈ ranked.turns calls, turn.TakesFirst → turn.cache.Untied) :
    (ranked.run calls).state.Mirrors (bucketed.run calls).state := by
  induction calls generalizing ranked bucketed with
  | nil => exact mirrors
  | cons call rest ih =>
    obtain ⟨first, others⟩ := List.forall_mem_cons.mp single
    obtain ⟨now, later⟩ := List.forall_mem_cons.mp untied
    exact ih (mirrors.perform_single first now).2 others later

/-- A call is answered the same, unless it asks for the order, and goes on mirroring, if no tie
has to be broken for anything that it does. -/
theorem perform (mirrors : ranked.Mirrors bucketed) (call : Call κ ν ε ρ)
    (untied : ∀ turn ∈ ranked.turns call.singly, turn.TakesFirst → turn.cache.Untied) :
    (call.asksOrder = false → (ranked.perform call).answer = (bucketed.perform call).answer) ∧
      (ranked.perform call).state.Mirrors (bucketed.perform call).state := by
  cases call with
  | extend pairs =>
    have stored := mirrors.run_single (fun part => Call.single_of_mem_singly) untied
    rw [(ranked.run_singly _).1, (bucketed.run_singly _).1] at stored
    exact ⟨fun _ => rfl, stored⟩
  | _ => exact mirrors.perform_single trivial (untied _ List.mem_cons_self)

/-- Every run is answered the same call by call, except where it asks for the order, and goes on
mirroring, if no tie has to be broken. -/
theorem run (mirrors : ranked.Mirrors bucketed) {calls : List (Call κ ν ε ρ)}
    (untied : ∀ turn ∈ ranked.turns (calls.flatMap Call.singly),
      turn.TakesFirst → turn.cache.Untied) :
    (∀ (place : Nat) call, calls[place]? = some call → call.asksOrder = false →
      ∃ reply, (ranked.run calls).answer[place]? = some reply ∧
        (bucketed.run calls).answer[place]? = some reply) ∧
    (ranked.run calls).state.Mirrors (bucketed.run calls).state := by
  induction calls generalizing ranked bucketed with
  | nil => exact ⟨fun place call planned => (nomatch planned), mirrors⟩
  | cons first rest ih =>
    rw [List.flatMap_cons, ranked.turns_append, (ranked.run_singly first).1] at untied
    obtain ⟨answer, after⟩ := mirrors.perform first fun turn now =>
      untied turn (List.mem_append_left _ now)
    obtain ⟨answers, last⟩ := ih after fun turn later => untied turn (List.mem_append_right _ later)
    refine ⟨fun place call called plain => ?_, last⟩
    cases place with
    | zero =>
      obtain rfl := Option.some.inj called
      exact ⟨_, rfl, congrArg some (answer plain).symm⟩
    | succ place => exact answers place call called plain

end Mirrors

end Cache

variable [EquivBEq κ] [LawfulHashable κ] [BEq ν]

/-- A cache that breaks ties by insertion and one that breaks them by use, of one capacity and
asked the same from the start, answer every call the same that does not ask for the order of
eviction, if in the first of the two one entry alone has the least count whenever an entry leaves
for another or is popped. After every call they hold the same keys with the same values and
counts, have the same counts in the order of eviction, and have counted the same. -/
theorem run_lfu_eq_lfru {config other : CacheConfig} (capacity : config.capacity = other.capacity)
    (calls : List (Call κ ν ε ρ))
    (untied : ∀ turn ∈ (Cache.ofConfig config : Cache .lfu κ ν).turns (calls.flatMap Call.singly),
      turn.TakesFirst → turn.cache.Untied) :
    let ranked : Cache .lfu κ ν := .ofConfig config
    let bucketed : Cache .lfru κ ν := .ofConfig other
    (∀ (place : Nat) call, calls[place]? = some call → call.asksOrder = false →
      ∃ reply, (ranked.run calls).answer[place]? = some reply ∧
        (bucketed.run calls).answer[place]? = some reply) ∧
    ∀ steps,
      let left := (ranked.run (calls.take steps)).state
      let right := (bucketed.run (calls.take steps)).state
      left.observe.sights.Perm right.observe.sights ∧
        countsOf left.observe.sights = countsOf right.observe.sights ∧
        left.metrics.core = right.metrics.core ∧
        left.metrics.usage.increments = right.metrics.usage.increments := by
  intro ranked bucketed
  have start : ranked.Mirrors bucketed := Cache.mirrors_ofConfig capacity
  refine ⟨(start.run untied).1, fun steps => ?_⟩
  have part : ∀ turn ∈ ranked.turns ((calls.take steps).flatMap Call.singly),
      turn.TakesFirst → turn.cache.Untied := by
    intro turn member
    refine untied turn ?_
    rw [← List.take_append_drop steps calls, List.flatMap_append, Cache.turns_append]
    exact List.mem_append_left _ member
  have mirrors := (start.run part).2
  intro left right
  rw [mirrors.left.observe_sights, mirrors.right.observe_sights]
  exact ⟨mirrors.sights,
    Queue.countsOf_sights_eq mirrors.sights mirrors.left.ordered mirrors.right.ordered,
    mirrors.core, mirrors.increments⟩

/-- With room for two entries the one that was not read leaves, however ties would be broken. -/
theorem run_lfu_eq_lfru_untied :
    let calls : List (Call FoldedKey Nat Unit Unit) :=
      [.put ⟨.text "a"⟩ 1, .get ⟨.text "A"⟩, .put ⟨.text "b"⟩ 2, .push ⟨.text "c"⟩ 3]
    let ranked : Cache .lfu FoldedKey Nat := .ofConfig ⟨⟨2, by decide⟩, 16, .threeQuarters⟩
    let bucketed : Cache .lfru FoldedKey Nat := .ofConfig ⟨⟨2, by decide⟩, 0, .threeQuarters⟩
    (bucketed.run calls).answer[3]? = some (.pair (some (⟨.text "b"⟩, 2))) ∧
      (ranked.run calls).answer[3]? = some (.pair (some (⟨.text "b"⟩, 2))) ∧
      countsOf (ranked.run calls).state.observe.sights =
        countsOf (bucketed.run calls).state.observe.sights := by
  intro calls ranked bucketed
  let queue : Queue .lfu FoldedKey Nat := .ofCapacity ⟨2, by decide⟩
  have empty : ranked.Represents queue := Cache.represents_ofConfig _
  have stored := (empty.perform calls[0]).state
  have read := (stored.perform calls[1]).state
  have full := (read.perform calls[2]).state
  have sole {cache : Cache .lfu FoldedKey Nat} {queue} (represents : cache.Represents queue)
      {counts : List Nat} (known : countsOf queue.sights = counts) (least : SoleLeast counts) :
      cache.Untied := by
    rw [Cache.Untied, represents.observe_sights, known]
    exact least
  have first : ¬ Turn.TakesFirst ⟨ranked, calls[0]⟩ := by
    rintro (evicts | ⟨pops, _⟩)
    · have kept : Turn.Kept ⟨ranked, calls[0]⟩ := Turn.kept empty trivial
      have fits := (kept.evicts_iff.mp evicts).2
      rw [empty.size_eq] at fits
      exact absurd fits (by decide)
    · cases pops
  have untied : ∀ turn ∈ ranked.turns (calls.flatMap Call.singly),
      turn.TakesFirst → turn.cache.Untied :=
    List.forall_mem_cons.mpr ⟨fun takes => absurd takes first, List.forall_mem_cons.mpr
      ⟨fun _ => sole stored (by cbv) ⟨1, by decide⟩, List.forall_mem_cons.mpr
      ⟨fun _ => sole read (by cbv) ⟨2, by decide⟩, List.forall_mem_singleton.mpr
        fun _ => sole full (by cbv) ⟨1, by decide⟩⟩⟩⟩
  let usual : CacheConfig := ⟨⟨2, by decide⟩, 16, .threeQuarters⟩
  let narrow : CacheConfig := ⟨⟨2, by decide⟩, 0, .threeQuarters⟩
  obtain ⟨answers, states⟩ :=
    run_lfu_eq_lfru (show usual.capacity = narrow.capacity from rfl) calls untied
  obtain ⟨reply, one, other⟩ := answers 3 calls[3] rfl rfl
  have evicted : (ranked.run calls).answer[3]? = some (.pair (some (⟨.text "b"⟩, 2))) := by
    rw [(empty.run calls).answer]
    cbv
  have last := states 4
  rw [show calls.take 4 = calls from rfl] at last
  exact ⟨other.trans (one.symm.trans evicted), evicted, last.2.1⟩

end EvictionCache
