import EvictionCache.Proofs.Cache.Observation
import EvictionCache.Proofs.Cache.Standing
import EvictionCache.Proofs.Queue.Hot
import EvictionCache.Proofs.Shared.Conservation
import EvictionCache.Workload.Key
import Mathlib

/-!
# Hot keys survive a scan

A key that was accessed again after it was stored is hot. As long as the hot keys of a cache
leave room for one more, any number of keys that are each stored once may pass through it: every
eviction takes an entry that was accessed only once, so that all hot keys stay. They may be
accessed meanwhile, and it makes no difference whether one owner uses the cache or threads share
it.
-/
namespace EvictionCache

variable {policy : Policy} {κ ν ε ρ : Type} [BEq κ] [Hashable κ]

namespace Cache

/-- Whether a key is present with at least two accesses. -/
def isHot (cache : Cache policy κ ν) (key : κ) : Bool := (cache.frequency? key).any (2 ≤ ·)

/-- The keys that are present with at least two accesses. -/
def hotKeys (cache : Cache policy κ ν) : List κ := (cache.toList.map Prod.fst).filter cache.isHot

variable [EquivBEq κ] {cache : Cache policy κ ν} {queue : Queue policy κ ν}

/-- A key is hot if its entry in the queue is. -/
theorem Represents.isHot_eq (represents : cache.Represents queue) (key : κ) :
    cache.isHot key = (queue.find? key).any fun entry => policy.isHot entry.metadata := by
  rw [isHot, frequency?, represents.entry?_eq, Option.any_bind]
  rfl

/-- The hot keys of a cache may have their places for good if they leave room for another. -/
theorem Represents.keeps_isHot (represents : cache.Represents queue)
    (few : cache.hotKeys.length < cache.capacity) : queue.Keeps cache.isHot where
  alike one other same := by
    rw [represents.isHot_eq, represents.isHot_eq, queue.find?_congr same]
  agree entry member := by
    rw [represents.isHot_eq, represents.finds entry member entry.key BEq.rfl]
    rfl
  held key hot := by
    rw [represents.isHot_eq, Option.any_eq_true] at hot
    obtain ⟨entry, found, _⟩ := hot
    exact ⟨entry, List.mem_of_find?_eq_some found, Queue.key_of_find?_eq_some found⟩
  few := by
    rw [hotKeys, represents.toList_eq, List.map_map, ← List.countP_eq_length_filter,
      List.countP_map, represents.capacity_eq] at few
    exact few

end Cache

namespace Turn

/-- Whether a turn removes no hot key and accesses only hot keys and keys that are absent. -/
def Spares (hot : κ → Bool) (turn : Turn policy κ ν ε ρ) : Prop :=
  turn.call.Spares hot turn.cache.containsKey

variable [BEq ν]

/-- Turns through which hot keys stay. -/
structure Keeping (hot : κ → Bool) (turns : List (Turn policy κ ν ε ρ))
    (last : Cache policy κ ν) : Prop where
  /-- They are present before and after every turn. -/
  present : ∀ turn ∈ turns, ∀ key, hot key = true →
    turn.cache.containsKey key = true ∧ turn.outcome.state.containsKey key = true
  /-- They are present in the end. -/
  stays : ∀ key, hot key = true → last.containsKey key = true
  /-- No eviction takes one. -/
  evicts : ∀ turn ∈ turns, ∀ key value, turn.displaced? = some (.evicted key value) →
    hot key = false

variable [EquivBEq κ] [LawfulHashable κ] {cache last : Cache policy κ ν}
  {queue : Queue policy κ ν} {hot : κ → Bool}

omit [BEq ν] in
/-- The keys that a queue keeps are present in its cache. -/
theorem containsKey_of_keeps (represents : cache.Represents queue) (keeps : queue.Keeps hot)
    {key : κ} (warm : hot key = true) : cache.containsKey key = true := by
  rw [represents.containsKey_eq]
  exact List.find?_isSome.mpr (keeps.held key warm)

/-- A turn that spares the hot keys keeps them and evicts none. -/
theorem Spares.keeps {call : Call κ ν ε ρ} (spares : Spares hot ⟨cache, call⟩)
    (represents : cache.Represents queue) (keeps : queue.Keeps hot) :
    (queue.perform call).state.Keeps hot ∧ ∀ key value,
      displaced? ⟨cache, call⟩ = some (.evicted key value) → hot key = false := by
  have known : cache.containsKey = fun key => (queue.find? key).isSome :=
    funext represents.containsKey_eq
  rw [Spares, known] at spares
  refine ⟨keeps.perform represents.finds represents.nodup represents.ordered
    represents.frequency?_fresh spares, fun leaving old evicted => ?_⟩
  cases call with
  | put key value | push key value =>
    have evicted : (cache.insert key value).answer = _ := evicted
    rw [(represents.insert key value).answer] at evicted
    refine (keeps.insert represents.finds represents.nodup represents.ordered
      represents.frequency?_fresh ?_ value).2 leaving old evicted
    exact spares.imp_right fun absent =>
      Option.isNone_iff_eq_none.mp (Option.isSome_eq_false_iff.mp absent)
  | _ => cases evicted

/-- Turns that all spare the hot keys keep them. -/
theorem Lead.keeping {turns : List (Turn policy κ ν ε ρ)} (lead : Lead cache turns last)
    (represents : cache.Represents queue) (keeps : queue.Keeps hot)
    (spares : ∀ turn ∈ turns, turn.Spares hot) : Keeping hot turns last := by
  induction lead generalizing queue with
  | nil cache =>
    exact ⟨fun turn member => (nomatch member),
      fun key => containsKey_of_keeps represents keeps, fun turn member => nomatch member⟩
  | cons turn later ih =>
    obtain ⟨kept, cold⟩ := (spares turn List.mem_cons_self).keeps represents keeps
    have after := (represents.perform turn.call).state
    have rest := ih after kept fun other member => spares other (List.mem_cons_of_mem _ member)
    exact ⟨List.forall_mem_cons.mpr ⟨fun key warm => ⟨containsKey_of_keeps represents keeps warm,
        containsKey_of_keeps after kept warm⟩, rest.present⟩, rest.stays,
      List.forall_mem_cons.mpr ⟨cold, rest.evicts⟩⟩

/-- Turns that lead from a cache in order lead to one in order. -/
theorem Lead.represents {turns : List (Turn policy κ ν ε ρ)} (lead : Lead cache turns last)
    (represents : cache.Represents queue) : ∃ queue, last.Represents queue := by
  induction lead generalizing queue with
  | nil cache => exact ⟨queue, represents⟩
  | cons turn _ ih => exact ih (represents.perform turn.call).state

end Turn

variable [EquivBEq κ] [LawfulHashable κ] [BEq ν]

/-- In every state that a cache can reach whose hot keys are fewer than fit, these keys stay
through any calls that pop nothing, do not clear, remove none of them, and access nothing but
these keys and keys that are absent: they are present before and after every call, and no
eviction takes one. Pairs that are stored together count as stored one by one. The same holds of
a cache that threads share, from any moment of any schedule on. -/
theorem run_keeps_hot :
    (∀ (policy : Policy) (config : CacheConfig) (before later : List (Call κ ν ε ρ)),
      let cache : Cache policy κ ν := ((Cache.ofConfig config).run before).state
      let turns := cache.turns (later.flatMap Call.singly)
      cache.hotKeys.length < cache.capacity → (∀ turn ∈ turns, turn.Spares cache.isHot) →
        Turn.Keeping cache.isHot turns (cache.run later).state) ∧
    ∀ (policy : Policy) (config : SharedConfig) (programs : List (List (SharedCall κ ν ε ρ)))
        (before later : List Nat),
      let start := System.ofPrograms (.ofConfig config : SharedCache policy κ ν) programs
      let system := start.run before
      let cache := system.shared.guarded
      let turns := system.works later
      cache.hotKeys.length < cache.capacity → (∀ turn ∈ turns, turn.Spares cache.isHot) →
        Turn.Keeping cache.isHot turns (system.run later).shared.guarded := by
  refine ⟨?alone, ?shared⟩
  case alone =>
    intro policy config before later cache turns few spares
    have represents : cache.Represents _ := ((Cache.represents_ofConfig config).run before).state
    have lead := (cache.turns_lead (later.flatMap Call.singly)).1
    rw [(cache.run_flatMap_singly later).1] at lead
    exact lead.keeping represents (represents.keeps_isHot few) spares
  case shared =>
    intro policy config programs before later start system cache turns few spares
    obtain ⟨queue, represents⟩ := (start.works_lead before).1.represents
      (Cache.represents_ofConfig config.cacheConfig)
    exact (system.works_lead later).1.keeping represents (represents.keeps_isHot few) spares

/-- With room for two entries: two keys that are stored once each pass through beside a key that
was read under another spelling; the second evicts the first. -/
theorem run_keeps_hot_scanned :
    let cache := ((Cache.ofConfig ⟨⟨2, by decide⟩, 16, .threeQuarters⟩ :
      Cache .lfru FoldedKey Nat).run
        ([.put ⟨.text "a"⟩ 1, .get ⟨.text "A"⟩] : List (Call FoldedKey Nat Unit Unit))).state
    let later : List (Call FoldedKey Nat Unit Unit) :=
      [.put ⟨.text "b"⟩ 2, .push ⟨.text "c"⟩ 3, .getMut ⟨.text "a"⟩ (· + 1)]
    (cache.run later).events = [.evicted .lfru] ∧
      (cache.run later).state.containsKey ⟨.text "A"⟩ = true := by
  intro cache later
  have represents : cache.Represents _ := ((Cache.represents_ofConfig _).run _).state
  have one := (represents.perform later[0]).state
  have listed : cache.toList = [(⟨.text "a"⟩, 1)] := represents.toList_eq.trans (by cbv)
  have hot : cache.isHot ⟨.text "A"⟩ = true := (represents.isHot_eq _).trans (by cbv)
  have still : cache.isHot ⟨.text "a"⟩ = true := (represents.isHot_eq _).trans (by cbv)
  have few : cache.hotKeys.length < cache.capacity := by
    rw [Cache.hotKeys, listed, show cache.capacity = 2 from Cache.capacity_run _ _]
    exact (List.length_filter_le _ _).trans_lt (by decide)
  have kept := run_keeps_hot.1 .lfru ⟨⟨2, by decide⟩, 16, .threeQuarters⟩ _ later few <|
    List.forall_mem_cons.mpr ⟨.inr ((represents.containsKey_eq _).trans (by cbv)),
      List.forall_mem_cons.mpr ⟨.inr ((one.containsKey_eq _).trans (by cbv)),
        List.forall_mem_singleton.mpr (.inl still)⟩⟩
  exact ⟨(represents.run later).events.trans (by cbv), kept.stays _ hot⟩

end EvictionCache
