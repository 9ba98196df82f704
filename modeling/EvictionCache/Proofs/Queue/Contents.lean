import EvictionCache.Proofs.Queue.Inclusion
import EvictionCache.Proofs.Queue.Likeness

/-!
# What a queue holds, apart from its order

Every operation on a queue is a change of what it holds: an entry comes, goes or is renewed, and
the policy decides only where it stands. One queue shows the part of another that belongs to some
keys (`Queue.Shows`) if the keys, values and counts of that part are its own, in whatever order.
The two may go by different policies. A call on one of the keys does the same to both, and a call
on another key does nothing to the part.
-/
namespace EvictionCache

variable {κ ν ε ρ : Type}

/-- An entry that takes its place joins the others. -/
theorem Policy.perm_place (policy : Policy) (entry : Entry κ ν policy.Metadata)
    (entries : List (Entry κ ν policy.Metadata)) :
    (policy.place entry entries).Perm (entry :: entries) :=
  List.perm_orderedInsert _ entry entries

/-- The counts among the sights of entries. -/
def countsOf (sights : List (κ × ν × Option Nat)) : List Nat :=
  sights.filterMap fun sight => sight.2.2

/-- A count that is kept comes before those of the rest. -/
theorem countsOf_cons {sight : κ × ν × Option Nat} {count : Nat} (counted : sight.2.2 = some count)
    (rest : List (κ × ν × Option Nat)) : countsOf (sight :: rest) = count :: countsOf rest := by
  rw [countsOf, List.filterMap_cons, counted]
  rfl

namespace Queue

section Sights

variable {policy : Policy} (queue : Queue policy κ ν)

/-- The keys, values and counts of a queue. -/
def sights : List (κ × ν × Option Nat) := queue.entries.map policy.sight

/-- A new entry is added to what a queue holds. -/
theorem sights_join (key : κ) (value : ν) :
    (queue.join key value).sights.Perm
      ((key, value, policy.frequency? queue.fresh) :: queue.sights) :=
  (policy.perm_place _ _).map policy.sight

/-- Making room does not change what the next entry carries. -/
theorem fresh_makeRoom : queue.makeRoom.state.fresh = queue.fresh := by
  unfold makeRoom
  split <;> rfl

variable [BEq κ]

/-- Discarding a key keeps what is held under others. -/
theorem sights_discard (key : κ) :
    (queue.discard key).sights = queue.sights.filter fun sight => !(sight.1 == key) := by
  rw [sights, sights, List.filter_map]
  rfl

/-- An entry that is renewed is held with its new value and one more access. -/
theorem sights_renew (entry : Entry κ ν policy.Metadata) (value : ν) :
    (queue.renew entry value).sights.Perm
      ((entry.key, value, (policy.frequency? entry.metadata).map nextCount) ::
        (queue.discard entry.key).sights) := by
  rw [← policy.frequency?_accessed]
  exact (policy.perm_place _ _).map policy.sight

/-- All spellings of a key find the same. -/
theorem find?_congr [EquivBEq κ] {one other : κ} (same : (one == other) = true) :
    queue.find? one = queue.find? other := by
  have alike : ∀ entry : Entry κ ν policy.Metadata, (entry.key == one) = (entry.key == other) :=
    fun entry => BEq.congr_right same
  unfold find?
  simp only [alike]

/-- Discarding a key takes out the entry that is found under it. -/
theorem perm_discard {queue : Queue policy κ ν} {key : κ} {entry : Entry κ ν policy.Metadata}
    (finds : queue.Finds) (nodup : queue.entries.Nodup) (found : queue.find? key = some entry) :
    queue.entries.Perm (entry :: (queue.discard key).entries) := by
  refine perm_cons_filter_of_unique nodup (List.mem_of_find?_eq_some found)
    (key_of_find?_eq_some found) fun other member same => ?_
  exact Option.some.inj ((finds other member key same).symm.trans found)

end Sights

variable {one other : Policy} {mine : κ → Bool} {whole : Queue one κ ν} {part : Queue other κ ν}

/-- A queue and what it holds under some keys, apart from the order. -/
def Shows (mine : κ → Bool) (whole : Queue one κ ν) (part : Queue other κ ν) : Prop :=
  (whole.sights.filter fun sight => mine sight.1).Perm part.sights

namespace Shows

/-- An entry that looks the same joins both. -/
theorem cons {after : Queue one κ ν} {next : Queue other κ ν} (shows : whole.Shows mine part)
    {sight : κ × ν × Option Nat} (named : mine sight.1 = true)
    (left : after.sights.Perm (sight :: whole.sights))
    (right : next.sights.Perm (sight :: part.sights)) : after.Shows mine next := by
  have joined := left.filter fun sight => mine sight.1
  rw [List.filter_cons, if_pos named] at joined
  exact (joined.trans (List.Perm.cons sight shows)).trans right.symm

/-- An entry of another key is not shown. -/
theorem cons_left {after : Queue one κ ν} (shows : whole.Shows mine part)
    {sight : κ × ν × Option Nat} (foreign : mine sight.1 = false)
    (left : after.sights.Perm (sight :: whole.sights)) : after.Shows mine part := by
  have joined := left.filter fun sight => mine sight.1
  rw [List.filter_cons, if_neg (Bool.eq_false_iff.mp foreign)] at joined
  exact joined.trans shows

variable [BEq κ]

/-- Both may discard a key. -/
theorem discard (shows : whole.Shows mine part) (key : κ) :
    (whole.discard key).Shows mine (part.discard key) := by
  have kept := shows.filter fun sight => !(sight.1 == key)
  rw [List.filter_filter] at kept
  rw [Shows, sights_discard, sights_discard, List.filter_filter]
  simpa only [Bool.and_comm] using kept

/-- An access to entries that look the same renews both. -/
theorem renew {entry : Entry κ ν one.Metadata} {another : Entry κ ν other.Metadata}
    (shows : whole.Shows mine part) (named : mine entry.key = true)
    (same : one.sight entry = other.sight another) (value : ν) :
    (whole.renew entry value).Shows mine (part.renew another value) := by
  have spelt : entry.key = another.key := congrArg Prod.fst same
  have counts : one.frequency? entry.metadata = other.frequency? another.metadata :=
    congrArg (fun sight => sight.2.2) same
  have left := whole.sights_renew entry value
  have right := part.sights_renew another value
  rw [spelt, counts] at left
  exact (shows.discard another.key).cons (spelt ▸ named) left right

variable (alike : ∀ left right, (left == right) = true → mine left = mine right)

include alike

/-- Both find entries that look the same under a key that is shown, or neither finds one. -/
theorem find?_cases (shows : whole.Shows mine part) (finds : part.Finds) {key : κ}
    (named : mine key = true) :
    whole.find? key = none ∧ part.find? key = none ∨
      ∃ entry another, whole.find? key = some entry ∧ part.find? key = some another ∧
        one.sight entry = other.sight another := by
  cases found : whole.find? key with
  | some entry =>
    have same := key_of_find?_eq_some found
    have listed : one.sight entry ∈ whole.sights.filter fun sight => mine sight.1 :=
      List.mem_filter.mpr ⟨List.mem_map_of_mem (List.mem_of_find?_eq_some found),
        (alike _ _ same).trans named⟩
    obtain ⟨another, member, sight⟩ := List.mem_map.mp (shows.mem_iff.mp listed)
    have spelt : another.key = entry.key := congrArg Prod.fst sight
    exact .inr ⟨entry, another, rfl, finds another member key (spelt ▸ same), sight.symm⟩
  | none =>
    refine .inl ⟨rfl, List.find?_eq_none.mpr fun another member same => ?_⟩
    have shown := shows.mem_iff.mpr (List.mem_map_of_mem member)
    obtain ⟨entry, listed, sight⟩ := List.mem_map.mp (List.mem_filter.mp shown).1
    have spelt : entry.key = another.key := congrArg Prod.fst sight
    exact List.find?_eq_none.mp found entry listed (spelt ▸ same)

/-- Discarding a key that is not shown keeps what is shown. -/
theorem discard_left (shows : whole.Shows mine part) {key : κ} (foreign : mine key = false) :
    (whole.discard key).Shows mine part := by
  rw [Shows, sights_discard, List.filter_filter]
  refine .trans (.of_eq (List.filter_congr fun sight _ => ?_)) shows
  cases same : sight.1 == key with
  | false => exact Bool.and_true _
  | true => rw [alike _ _ same, foreign]; rfl

/-- An access to an entry of another key is not shown. -/
theorem renew_left {entry : Entry κ ν one.Metadata} (shows : whole.Shows mine part)
    (foreign : mine entry.key = false) (value : ν) :
    (whole.renew entry value).Shows mine part :=
  (shows.discard_left alike foreign).cons_left foreign (whole.sights_renew entry value)

/-- Working on the value of a key that is shown gives the same answer. -/
theorem visit (shows : whole.Shows mine part) (finds : part.Finds) {key : κ}
    (named : mine key = true) (action : ν → ν × ρ) :
    (whole.visit key action).answer = (part.visit key action).answer ∧
      (whole.visit key action).state.Shows mine (part.visit key action).state := by
  rw [Queue.visit, Queue.visit]
  rcases shows.find?_cases alike finds named with
    ⟨left, right⟩ | ⟨entry, another, left, right, same⟩
  · rw [left, right]
    exact ⟨rfl, shows⟩
  · have value : entry.value = another.value := congrArg (fun sight => sight.2.1) same
    have shown : mine entry.key = true := (alike _ _ (key_of_find?_eq_some left)).trans named
    rw [left, right]
    dsimp only
    rw [value]
    exact ⟨rfl, shows.renew shown same _⟩

/-- Working on the value of another key is not shown. -/
theorem visit_left (shows : whole.Shows mine part) {key : κ} (foreign : mine key = false)
    (action : ν → ν × ρ) : (whole.visit key action).state.Shows mine part := by
  rw [Queue.visit]
  cases found : whole.find? key with
  | none => exact shows
  | some entry =>
    exact shows.renew_left alike ((alike _ _ (key_of_find?_eq_some found)).trans foreign) _

/-- Storing a value under a key that is shown displaces the same, if the same leaves to make
room. -/
theorem insert (shows : whole.Shows mine part) (finds : part.Finds) {key : κ}
    (named : mine key = true) (value : ν)
    (fresh : one.frequency? whole.fresh = other.frequency? part.fresh)
    (room : whole.find? key = none → whole.makeRoom.state.Shows mine part.makeRoom.state ∧
      whole.makeRoom.answer.map one.sight = part.makeRoom.answer.map other.sight) :
    (whole.insert key value).answer = (part.insert key value).answer ∧
      (whole.insert key value).state.Shows mine (part.insert key value).state := by
  rw [Queue.insert, Queue.insert]
  rcases shows.find?_cases alike finds named with
    ⟨left, right⟩ | ⟨entry, another, left, right, same⟩
  · obtain ⟨roomy, leaving⟩ := room left
    have displaced : whole.makeRoom.answer.map (fun entry => .evicted entry.key entry.value) =
        part.makeRoom.answer.map (fun entry => Displaced.evicted entry.key entry.value) := by
      have read := congrArg (Option.map fun sight => Displaced.evicted sight.1 sight.2.1) leaving
      rw [Option.map_map, Option.map_map] at read
      exact read
    have joined := whole.makeRoom.state.sights_join key value
    have added := part.makeRoom.state.sights_join key value
    rw [fresh_makeRoom, fresh] at joined
    rw [fresh_makeRoom] at added
    rw [left, right]
    exact ⟨displaced, roomy.cons named joined added⟩
  · have value : entry.value = another.value := congrArg (fun sight => sight.2.1) same
    have shown : mine entry.key = true := (alike _ _ (key_of_find?_eq_some left)).trans named
    rw [left, right]
    dsimp only
    rw [value]
    exact ⟨rfl, shows.renew shown same _⟩

/-- Storing a value under another key is not shown, if there is room. -/
theorem insert_left (shows : whole.Shows mine part) {key : κ} (foreign : mine key = false)
    (value : ν) (room : whole.find? key = none → whole.makeRoom.state.Shows mine part) :
    (whole.insert key value).state.Shows mine part := by
  rw [Queue.insert]
  cases found : whole.find? key with
  | none => exact (room found).cons_left foreign (whole.makeRoom.state.sights_join key value)
  | some entry =>
    exact shows.renew_left alike ((alike _ _ (key_of_find?_eq_some found)).trans foreign) _

/-- Looking at a key that is shown finds what looks the same. -/
theorem find?_eq (shows : whole.Shows mine part) (finds : part.Finds) {key : κ}
    (named : mine key = true) {α : Type} (read : κ × ν × Option Nat → α) :
    (whole.find? key).map (read ∘ one.sight) = (part.find? key).map (read ∘ other.sight) := by
  rcases shows.find?_cases alike finds named with
    ⟨left, right⟩ | ⟨entry, another, left, right, same⟩
  · rw [left, right]
    rfl
  · rw [left, right]
    exact congrArg (some ∘ read) same

/-- A key that is shown has the same count in both. -/
theorem frequency?_eq (shows : whole.Shows mine part) (finds : part.Finds) {key : κ}
    (named : mine key = true) :
    (whole.find? key).bind (fun entry => one.frequency? entry.metadata) =
      (part.find? key).bind fun entry => other.frequency? entry.metadata := by
  have counts := shows.find?_eq alike finds named fun sight => sight.2.2
  have joined := congrArg (·.bind id) counts
  rw [Option.bind_map, Option.bind_map] at joined
  exact joined

variable [BEq ν]

/-- A call on a key that is shown gives the same answer and does the same. -/
theorem perform (shows : whole.Shows mine part) (finds : part.Finds) {call : Call κ ν ε ρ}
    {key : κ} (keyed : call.key? = some key) (named : mine key = true)
    (fresh : one.frequency? whole.fresh = other.frequency? part.fresh)
    (room : call.stores = true → whole.find? key = none →
      whole.makeRoom.state.Shows mine part.makeRoom.state ∧
        whole.makeRoom.answer.map one.sight = part.makeRoom.answer.map other.sight) :
    (whole.perform call).answer = (part.perform call).answer ∧
      (whole.perform call).state.Shows mine (part.perform call).state := by
  have looked {α : Type} (action : ν → ν × α) (reply : Option α → Reply κ ν ε ρ) :
      ((whole.visit key action).map reply).answer = ((part.visit key action).map reply).answer ∧
        ((whole.visit key action).map reply).state.Shows mine
          ((part.visit key action).map reply).state := by
    obtain ⟨answer, state⟩ := shows.visit alike finds named action
    exact ⟨congrArg reply answer, state⟩
  have stored (value : ν) (reply : Option (Displaced κ ν) → Reply κ ν ε ρ)
      (stores : call.stores = true) :
      ((whole.insert key value).map reply).answer = ((part.insert key value).map reply).answer ∧
        ((whole.insert key value).map reply).state.Shows mine
          ((part.insert key value).map reply).state := by
    obtain ⟨answer, state⟩ := shows.insert alike finds named value fresh (room stores)
    exact ⟨congrArg reply answer, state⟩
  cases call with
  | get | getMut | getWith | getMutWith =>
    obtain rfl := Option.some.inj keyed
    exact looked _ _
  | put _ value =>
    obtain rfl := Option.some.inj keyed
    exact stored value (.value ∘ fun displaced => displaced.bind Displaced.replacedValue?) rfl
  | push _ value =>
    obtain rfl := Option.some.inj keyed
    exact stored value (fun displaced => .pair (displaced.map Displaced.pair)) rfl
  | remove =>
    obtain rfl := Option.some.inj keyed
    have found := shows.find?_eq alike finds named fun sight => sight.2.1
    refine ⟨congrArg Reply.value ?_, shows.discard _⟩
    exact (Option.map_map ..).trans (found.trans (Option.map_map Prod.snd Entry.pair _).symm)
  | peek =>
    obtain rfl := Option.some.inj keyed
    exact ⟨congrArg Reply.value (shows.find?_eq alike finds named fun sight => sight.2.1), shows⟩
  | frequency =>
    obtain rfl := Option.some.inj keyed
    exact ⟨congrArg Reply.count (shows.frequency?_eq alike finds named), shows⟩
  | containsKey =>
    obtain rfl := Option.some.inj keyed
    have found := shows.find?_eq alike finds named fun _ => ()
    refine ⟨congrArg Reply.truth ?_, shows⟩
    exact (Option.isSome_map ..).symm.trans ((congrArg Option.isSome found).trans Option.isSome_map)
  | extend | pop | clear | containsValue | isEmpty | size | capacity | candidate | toList =>
    cases keyed

/-- A call on another key is not shown, if there is room for what it stores. -/
theorem perform_left (shows : whole.Shows mine part) {call : Call κ ν ε ρ} {key : κ}
    (keyed : call.key? = some key) (foreign : mine key = false)
    (room : call.stores = true → whole.find? key = none →
      whole.makeRoom.state.Shows mine part) :
    (whole.perform call).state.Shows mine part := by
  cases call with
  | get | getMut | getWith | getMutWith =>
    obtain rfl := Option.some.inj keyed
    exact shows.visit_left alike foreign _
  | put | push =>
    obtain rfl := Option.some.inj keyed
    exact shows.insert_left alike foreign _ (room rfl)
  | remove =>
    obtain rfl := Option.some.inj keyed
    exact shows.discard_left alike foreign
  | peek | frequency | containsKey => exact shows
  | extend | pop | clear | containsValue | isEmpty | size | capacity | candidate | toList =>
    cases keyed

end Shows

end Queue

end EvictionCache
