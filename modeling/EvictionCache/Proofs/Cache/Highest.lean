import EvictionCache.Proofs.Cache.Figures
import EvictionCache.Proofs.Queue.Reached
import EvictionCache.Workload.Key
import Mathlib

/-!
# The highest count

A cache that ranks its entries keeps the highest count that an access reached. Every count starts
at one when its entry is stored, and that is no access to a present entry: so as soon as any count
ever reached two, the figure is the highest count that any entry ever had, whether it is still
there or not, and until then the figure is zero.
-/
namespace EvictionCache

variable {κ ν ε ρ : Type} [BEq κ] [Hashable κ]

/-- The counts that the entries of a cache had, before turns and at last. -/
def Cache.countsSeen {policy : Policy} (cache : Cache policy κ ν)
    (turns : List (Turn policy κ ν ε ρ)) : List Nat :=
  (turns.map Turn.cache ++ [cache]).flatMap fun cache => countsOf cache.observe.sights

namespace Cache

variable {cache : Cache .lfu κ ν} {queue : Queue .lfu κ ν}

/-- The counts that are there were seen. -/
theorem mem_countsSeen (turns : List (Turn .lfu κ ν ε ρ)) {count : Nat}
    (here : count ∈ countsOf cache.observe.sights) : count ∈ cache.countsSeen turns :=
  List.mem_flatMap.mpr ⟨cache, List.mem_append_right _ (List.mem_singleton_self cache), here⟩

/-- The counts after one more call were seen as well. -/
theorem countsSeen_concat [BEq ν] (cache : Cache .lfu κ ν) (turns : List (Turn .lfu κ ν ε ρ))
    (call : Call κ ν ε ρ) :
    (cache.perform call).state.countsSeen (turns ++ [⟨cache, call⟩]) =
      cache.countsSeen turns ++ countsOf (cache.perform call).state.observe.sights := by
  simp [countsSeen]

/-- The counts seen in a run are those after each of its beginnings. -/
theorem countsSeen_run [BEq ν] (cache : Cache .lfu κ ν) (calls : List (Call κ ν ε ρ)) :
    (cache.run calls).state.countsSeen (cache.turns calls) =
      calls.inits.flatMap fun made => countsOf (cache.run made).state.observe.sights := by
  induction calls generalizing cache with
  | nil => rfl
  | cons call rest ih =>
    rw [List.inits_cons, List.flatMap_cons, List.flatMap_map]
    exact congrArg (countsOf cache.observe.sights ++ ·) (ih (cache.perform call).state)

variable [EquivBEq κ]

/-- The count of a key is one of those that are there. -/
theorem Represents.mem_countsOf (represents : cache.Represents queue) {key : κ} {count : Nat}
    (known : cache.frequency? key = some count) : count ∈ countsOf cache.observe.sights := by
  rw [frequency?, represents.entry?_eq] at known
  obtain ⟨entry, found, counted⟩ := Option.bind_eq_some_iff.mp known
  have listed : Policy.sight .lfu entry ∈ queue.sights :=
    List.mem_map_of_mem (List.mem_of_find?_eq_some found)
  rw [represents.observe_sights]
  exact List.mem_filterMap.mpr ⟨_, listed, counted⟩

variable [BEq ν]

/-- A call that does one thing raises the highest count in the figures to the count that its access
reaches, if that is higher. -/
theorem Represents.maxFrequency_perform (represents : cache.Represents queue)
    {call : Call κ ν ε ρ} (single : call.Single) :
    (cache.perform call).state.metrics.usage.maxFrequency =
      max cache.metrics.usage.maxFrequency ((queue.reached? call).getD 0) := by
  have usage := congrArg RankedUsage.maxFrequency (represents.usage_perform single)
  have accessed : Turn.accessed? ⟨cache, call⟩ = queue.accessed? call :=
    represents.accessed?_eq call
  have added : (Policy.added .lfu (queue.accessed? call)).maxFrequency =
      (queue.reached? call).getD 0 := by
    rw [Queue.reached?]
    cases queue.accessed? call <;> rfl
  rw [Turn.usage, accessed] at usage
  rw [← added]
  exact usage

variable [LawfulHashable κ]

/-- One more call that does one thing leaves a figure that tells the highest count. -/
theorem Represents.tells_perform (represents : cache.Represents queue)
    {turns : List (Turn .lfu κ ν ε ρ)}
    (tells : Tells cache.metrics.usage.maxFrequency (cache.countsSeen turns))
    {call : Call κ ν ε ρ} (single : call.Single) :
    Tells (cache.perform call).state.metrics.usage.maxFrequency
      ((cache.perform call).state.countsSeen (turns ++ [⟨cache, call⟩])) := by
  have fresh : ∀ count, Policy.frequency? .lfu queue.fresh = some count → count = 1 := by
    intro count known
    rw [represents.frequency?_fresh] at known
    exact (Option.some.inj known).symm
  have recounts := Queue.recounts_perform fresh single
  rw [← represents.observe_sights, ← (represents.perform call).state.observe_sights] at recounts
  rw [countsSeen_concat, represents.maxFrequency_perform single]
  exact tells.append recounts fun _ => mem_countsSeen turns

/-- After every run the figure tells the highest count. -/
theorem tells_run (config : CacheConfig) (calls : List (Call κ ν ε ρ)) :
    let start : Cache .lfu κ ν := .ofConfig config
    let cache := (start.run calls).state
    Tells cache.metrics.usage.maxFrequency
      (cache.countsSeen (start.turns (calls.flatMap Call.singly))) :=
  run_induction (fun turns (cache : Cache .lfu κ ν) =>
      Tells cache.metrics.usage.maxFrequency (cache.countsSeen turns))
    config tells_nil (fun tells represents => represents.tells_perform tells) calls

end Cache

variable [EquivBEq κ] [LawfulHashable κ] [BEq ν]

/-- After every run of a cache that ranks its entries the highest count in the figures is the
highest that any entry ever had, whether it is still there or was evicted, removed or cleared, as
soon as one entry was accessed again after it was stored; until then it is zero. So it is no less
than the count of any key that is present, if that was accessed again. Pairs that are stored
together count as stored one by one. -/
theorem run_maxFrequency (config : CacheConfig) (calls : List (Call κ ν ε ρ)) :
    let start : Cache .lfu κ ν := .ofConfig config
    let cache := (start.run calls).state
    let highest := (cache.countsSeen (start.turns (calls.flatMap Call.singly))).max?.getD 0
    cache.metrics.usage.maxFrequency = (if 2 ≤ highest then highest else 0) ∧
      ∀ key count, cache.frequency? key = some count → 2 ≤ count →
        count ≤ cache.metrics.usage.maxFrequency := by
  intro start cache highest
  have represents : cache.Represents _ := ((Cache.represents_ofConfig config).run calls).state
  have tells : Tells cache.metrics.usage.maxFrequency (cache.countsSeen _) :=
    Cache.tells_run config calls
  refine ⟨tells.eq_highest, fun key count known least => ?_⟩
  have bounded := tells.bounded count (Cache.mem_countsSeen _ (represents.mem_countsOf known))
  change count ≤ max cache.metrics.usage.maxFrequency 1 at bounded
  omega

/-- With room for one entry, the one that was read twice leaves, and its count of three stays the
highest although the one that is there has a count of one. -/
theorem run_maxFrequency_evicted :
    let start : Cache .lfu Nat Nat := .ofConfig ⟨⟨1, by decide⟩, 16, .threeQuarters⟩
    let calls : List (Call Nat Nat Unit Unit) := [.put 1 10, .get 1, .get 1, .put 2 20]
    let cache := (start.run calls).state
    cache.metrics.usage.maxFrequency = 3 ∧ countsOf cache.observe.sights = [1] := by
  intro start calls cache
  have represents (calls : List (Call Nat Nat Unit Unit)) : (start.run calls).state.Represents _ :=
    ((Cache.represents_ofConfig _).run calls).state
  have seen : cache.countsSeen (start.turns (calls.flatMap Call.singly)) = _ :=
    start.countsSeen_run calls
  simp only [fun calls => (represents calls).observe_sights] at seen
  let highest := (cache.countsSeen (start.turns (calls.flatMap Call.singly))).max?.getD 0
  have three : highest = 3 := (congrArg (fun counts => counts.max?.getD 0) seen).trans (by cbv)
  have figure : cache.metrics.usage.maxFrequency = if 2 ≤ highest then highest else 0 :=
    (run_maxFrequency ⟨⟨1, by decide⟩, 16, .threeQuarters⟩ calls).1
  have counts : countsOf cache.observe.sights = [1] :=
    (congrArg countsOf (represents calls).observe_sights).trans (by cbv)
  rw [three, if_pos (by decide)] at figure
  exact ⟨figure, counts⟩

/-- A single entry that is stored and not accessed again has a count of one, but the highest count
in the figures is zero. -/
theorem run_maxFrequency_stored :
    let start : Cache .lfu Key Nat := .ofConfig ⟨⟨1, by decide⟩, 16, .threeQuarters⟩
    let calls : List (Call Key Nat Unit Unit) := [.put (.text "a") 1]
    let cache := (start.run calls).state
    let highest := (cache.countsSeen (start.turns (calls.flatMap Call.singly))).max?.getD 0
    highest = 1 ∧ cache.frequency? (.text "a") = some 1 ∧
      cache.metrics.usage.maxFrequency ≠ highest ∧
      ¬ ∀ key count, cache.frequency? key = some count →
        count ≤ cache.metrics.usage.maxFrequency := by
  intro start calls cache highest
  have begun : start.Represents _ := Cache.represents_ofConfig _
  have represents (calls : List (Call Key Nat Unit Unit)) :
      (start.run calls).state.Represents _ := (begun.run calls).state
  have seen : cache.countsSeen (start.turns (calls.flatMap Call.singly)) = _ :=
    start.countsSeen_run calls
  simp only [fun calls => (represents calls).observe_sights] at seen
  have one : highest = 1 := (congrArg (fun counts => counts.max?.getD 0) seen).trans (by cbv)
  have counted : cache.frequency? (.text "a") = some 1 := by
    rw [Cache.frequency?, (represents calls).entry?_eq]
    cbv
  let storing : Call Key Nat Unit Unit := .put (.text "a") 1
  have stores : storing.Single := trivial
  -- Storing reaches no count, so the figure is the one of the start.
  have figure : cache.metrics.usage.maxFrequency = 0 :=
    (begun.maxFrequency_perform stores).trans (by cbv)
  refine ⟨one, counted, by omega, fun tells => ?_⟩
  have impossible := tells _ _ counted
  omega

end EvictionCache
