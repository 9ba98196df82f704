import EvictionCache.Proofs.Queue.Contents

/-!
# Hot keys

An entry is hot once it was accessed again after it was stored. While fewer keys are hot than
there are entries in a full queue, some entry is not hot, and the first one in the order of
eviction is not hot either. So the hot keys stay where others come and go (`Queue.Keeps`).
-/
namespace EvictionCache

variable {policy : Policy} {κ ν ε ρ : Type}

namespace Policy

/-- Whether what an entry carries counts at least two accesses. -/
def isHot (policy : Policy) (metadata : policy.Metadata) : Bool :=
  (policy.frequency? metadata).any (2 ≤ ·)

/-- What is hot stays hot when it is accessed. -/
theorem isHot_accessed {metadata : policy.Metadata} (hot : policy.isHot metadata = true) :
    policy.isHot (policy.accessed metadata) = true := by
  rw [isHot, Option.any_eq_true] at hot ⊢
  obtain ⟨count, counted, twice⟩ := hot
  refine ⟨nextCount count, by rw [frequency?_accessed, counted]; rfl, ?_⟩
  have bound : 2 ≤ maxAccessCount := by decide
  rw [decide_eq_true_eq] at twice ⊢
  exact Nat.le_min.mpr ⟨Nat.le_succ_of_le twice, bound⟩

/-- What was just stored is not hot. -/
theorem isHot_of_fresh {metadata : policy.Metadata}
    (fresh : policy.frequency? metadata = policy.frequency? policy.first) :
    policy.isHot metadata = false := by
  rw [isHot, fresh]
  cases policy <;> rfl

/-- What is not hot is evicted before what is. -/
theorem before_of_isHot {cold metadata : policy.Metadata} (hot : policy.isHot metadata = true)
    (other : policy.isHot cold = false) : policy.Before cold metadata := by
  cases policy with
  | lru => cases hot
  | lfu =>
    have twice := of_decide_eq_true hot
    have once := of_decide_eq_false other
    exact .inl (Nat.lt_of_lt_of_le (Nat.lt_of_not_le once) twice)
  | lfru =>
    have twice := of_decide_eq_true hot
    have once := of_decide_eq_false other
    exact Nat.lt_of_lt_of_le (Nat.lt_of_not_le once) twice

end Policy

/-- Whether a call removes no hot key and accesses only hot keys and keys that are absent. -/
def Call.Spares (hot present : κ → Bool) : Call κ ν ε ρ → Prop
  | get key | getMut key _ | getWith key _ | getMutWith key _ | put key _ | push key _ =>
    hot key = true ∨ present key = false
  | remove key => hot key = false
  | extend _ | pop | clear => False
  | peek _ | frequency _ | containsKey _ | containsValue _ | isEmpty | size | capacity | candidate
  | toList => True

namespace Queue

variable [BEq κ] {queue : Queue policy κ ν} {hot : κ → Bool}

/-- A queue with some keys that have a place for good. -/
structure Keeps (hot : κ → Bool) (queue : Queue policy κ ν) : Prop where
  /-- It makes no difference how a key is spelt. -/
  alike : ∀ one other, (one == other) = true → hot one = hot other
  /-- The entries of these keys are the hot ones. -/
  agree : ∀ entry ∈ queue.entries, policy.isHot entry.metadata = hot entry.key
  /-- Each of them is present. -/
  held : ∀ key, hot key = true → ∃ entry ∈ queue.entries, (entry.key == key) = true
  /-- They leave room for another key. -/
  few : (queue.entries.countP fun entry => hot entry.key) < queue.capacity

namespace Keeps

/-- The first entry of a full queue is not hot. -/
theorem head_cold (keeps : queue.Keeps hot) (ordered : policy.Ordered queue.entries)
    (full : queue.capacity ≤ queue.entries.length) {first : Entry κ ν policy.Metadata}
    (head : queue.entries.head? = some first) : hot first.key = false := by
  obtain ⟨cold, member, other⟩ : ∃ cold ∈ queue.entries, hot cold.key = false := by
    by_contra none
    push Not at none
    have all : (queue.entries.countP fun entry => hot entry.key) = queue.entries.length :=
      List.countP_eq_length.mpr fun entry member => by simpa using none entry member
    exact absurd (all ▸ keeps.few) (Nat.not_lt_of_le full)
  obtain ⟨rest, entries⟩ := List.head?_eq_some_iff.mp head
  rw [entries] at ordered member
  rcases List.mem_cons.mp member with rfl | later
  · exact other
  · rw [← keeps.agree cold (entries ▸ member)] at other
    by_contra warm
    rw [Bool.not_eq_false, ← keeps.agree first (entries ▸ List.mem_cons_self)] at warm
    exact List.rel_of_pairwise_cons ordered later (Policy.before_of_isHot warm other)

/-- Entries may go that are not hot. -/
theorem of_sublist (keeps : queue.Keeps hot) {next : Queue policy κ ν}
    (capacity : next.capacity = queue.capacity) (sublist : next.entries.Sublist queue.entries)
    (kept : ∀ entry ∈ queue.entries, hot entry.key = true → entry ∈ next.entries) :
    next.Keeps hot where
  alike := keeps.alike
  agree entry member := keeps.agree entry (sublist.subset member)
  held key warm := by
    obtain ⟨entry, member, same⟩ := keeps.held key warm
    exact ⟨entry, kept entry member ((keeps.alike _ _ same).trans warm), same⟩
  few := capacity ▸ Nat.lt_of_le_of_lt sublist.countP_le keeps.few

/-- A key may be discarded that is not hot. -/
theorem discard (keeps : queue.Keeps hot) {key : κ} (cold : hot key = false) :
    (queue.discard key).Keeps hot := by
  refine keeps.of_sublist rfl List.filter_sublist fun entry member warm => ?_
  refine List.mem_filter.mpr ⟨member, Bool.not_eq_true' _ ▸ Bool.eq_false_iff.mpr fun same => ?_⟩
  rw [keeps.alike _ _ same, cold] at warm
  cases warm

/-- Making room takes an entry that is not hot. -/
theorem makeRoom (keeps : queue.Keeps hot)
    (ordered : policy.Ordered queue.entries) :
    queue.makeRoom.state.Keeps hot ∧
      ∀ entry, queue.makeRoom.answer = some entry → hot entry.key = false := by
  unfold Queue.makeRoom
  split
  · next full =>
    have cold (first) (head : queue.entries.head? = some first) : hot first.key = false :=
      keeps.head_cold ordered full head
    refine ⟨keeps.of_sublist rfl (List.tail_sublist _) fun entry member warm => ?_, cold⟩
    change entry ∈ queue.entries.tail
    cases entries : queue.entries with
    | nil =>
      rw [entries] at member
      cases member
    | cons first rest =>
      rw [entries] at member
      rcases List.mem_cons.mp member with rfl | later
      · rw [cold entry (by rw [entries]; rfl)] at warm
        cases warm
      · exact later
  · exact ⟨keeps, fun entry missing => nomatch missing⟩

/-- A new entry under a key that is not hot comes as one that is not hot. -/
theorem join (keeps : queue.Keeps hot)
    (fresh : policy.frequency? queue.fresh = policy.frequency? policy.first) {key : κ}
    (cold : hot key = false) (value : ν) : (queue.join key value).Keeps hot := by
  have joined := policy.perm_place ⟨key, value, queue.fresh⟩ queue.entries
  refine ⟨keeps.alike, fun entry member => ?_, fun other warm => ?_, ?_⟩
  · rcases List.mem_cons.mp (joined.mem_iff.mp member) with rfl | before
    · exact (Policy.isHot_of_fresh fresh).trans cold.symm
    · exact keeps.agree entry before
  · obtain ⟨entry, member, same⟩ := keeps.held other warm
    exact ⟨entry, joined.mem_iff.mpr (List.mem_cons_of_mem _ member), same⟩
  · have counted := joined.countP_eq fun entry => hot entry.key
    rw [List.countP_cons, if_neg (Bool.eq_false_iff.mp cold)] at counted
    exact counted.trans_lt keeps.few

/-- A hot key that is accessed stays hot. -/
theorem renew (keeps : queue.Keeps hot) (finds : queue.Finds) (nodup : queue.entries.Nodup)
    {entry : Entry κ ν policy.Metadata} (found : queue.find? entry.key = some entry)
    (warm : hot entry.key = true) (value : ν) : (queue.renew entry value).Keeps hot := by
  have split := perm_discard finds nodup found
  have renewed := policy.perm_place ⟨entry.key, value, policy.accessed entry.metadata⟩
    (queue.discard entry.key).entries
  have keys : ((queue.renew entry value).entries.map Entry.key).Perm
      (queue.entries.map Entry.key) :=
    (renewed.map Entry.key).trans (split.map Entry.key).symm
  refine ⟨keeps.alike, fun other member => ?_, fun key wanted => ?_, ?_⟩
  · rcases List.mem_cons.mp (renewed.mem_iff.mp member) with rfl | kept
    · have listed := split.mem_iff.mpr List.mem_cons_self
      exact (Policy.isHot_accessed ((keeps.agree entry listed).trans warm)).trans warm.symm
    · exact keeps.agree other (split.mem_iff.mpr (List.mem_cons_of_mem _ kept))
  · obtain ⟨other, member, same⟩ := keeps.held key wanted
    obtain ⟨present, listed, spelt⟩ :=
      List.mem_map.mp (keys.mem_iff.mpr (List.mem_map_of_mem member))
    exact ⟨present, listed, spelt ▸ same⟩
  · have counted := keys.countP_eq hot
    rw [List.countP_map, List.countP_map] at counted
    exact counted.trans_lt keeps.few

/-- Working on the value of a hot key, or of one that is absent. -/
theorem visit [EquivBEq κ] (keeps : queue.Keeps hot) (finds : queue.Finds)
    (nodup : queue.entries.Nodup) {key : κ} (spares : hot key = true ∨ queue.find? key = none)
    (action : ν → ν × ρ) : (queue.visit key action).state.Keeps hot := by
  rw [Queue.visit]
  cases found : queue.find? key with
  | none => exact keeps
  | some entry =>
    have same := key_of_find?_eq_some found
    have warm := spares.resolve_right (by rw [found]; exact Option.some_ne_none entry)
    have listed := finds entry (List.mem_of_find?_eq_some found) entry.key BEq.rfl
    exact keeps.renew finds nodup listed ((keeps.alike _ _ same).trans warm) _

/-- Storing a value under a hot key, or under one that is absent, evicts no hot key. -/
theorem insert [EquivBEq κ] (keeps : queue.Keeps hot) (finds : queue.Finds)
    (nodup : queue.entries.Nodup) (ordered : policy.Ordered queue.entries)
    (fresh : policy.frequency? queue.fresh = policy.frequency? policy.first) {key : κ}
    (spares : hot key = true ∨ queue.find? key = none) (value : ν) :
    (queue.insert key value).state.Keeps hot ∧ ∀ leaving old,
      (queue.insert key value).answer = some (.evicted leaving old) → hot leaving = false := by
  rw [Queue.insert]
  cases found : queue.find? key with
  | some entry =>
    have same := key_of_find?_eq_some found
    have warm := spares.resolve_right (by rw [found]; exact Option.some_ne_none entry)
    have listed := finds entry (List.mem_of_find?_eq_some found) entry.key BEq.rfl
    exact ⟨keeps.renew finds nodup listed ((keeps.alike _ _ same).trans warm) value,
      fun leaving old replaced => by cases replaced⟩
  | none =>
    have cold : hot key = false := by
      by_contra warm
      obtain ⟨entry, member, same⟩ := keeps.held key (Bool.not_eq_false _ ▸ warm)
      exact List.find?_eq_none.mp found entry member same
    obtain ⟨roomy, gone⟩ := keeps.makeRoom ordered
    refine ⟨roomy.join (queue.fresh_makeRoom ▸ fresh) cold value, fun leaving old evicted => ?_⟩
    obtain ⟨entry, answer, same⟩ := Option.map_eq_some_iff.mp evicted
    obtain ⟨rfl, _⟩ := Displaced.evicted.inj same
    exact gone entry answer

/-- Every call that spares the hot keys keeps them. -/
theorem perform [EquivBEq κ] [BEq ν] (keeps : queue.Keeps hot) (finds : queue.Finds)
    (nodup : queue.entries.Nodup) (ordered : policy.Ordered queue.entries)
    (fresh : policy.frequency? queue.fresh = policy.frequency? policy.first)
    {call : Call κ ν ε ρ} (spares : call.Spares hot fun key => (queue.find? key).isSome) :
    (queue.perform call).state.Keeps hot := by
  have absent {key : κ} (either : hot key = true ∨ (queue.find? key).isSome = false) :
      hot key = true ∨ queue.find? key = none :=
    either.imp_right fun gone => Option.isNone_iff_eq_none.mp (Option.isSome_eq_false_iff.mp gone)
  cases call with
  | get | getMut | getWith | getMutWith => exact keeps.visit finds nodup (absent spares) _
  | put key value | push key value =>
    exact (keeps.insert finds nodup ordered fresh (absent spares) value).1
  | remove key => exact keeps.discard spares
  | extend | pop | clear => exact spares.elim
  | peek | frequency | containsKey | containsValue | isEmpty | size | capacity | candidate
  | toList => exact keeps

end Keeps

end Queue

end EvictionCache
