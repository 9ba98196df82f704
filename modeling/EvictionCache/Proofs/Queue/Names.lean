import EvictionCache.Proofs.Queue.Contents
import Mathlib.Data.List.Perm.Subperm

/-!
# Queues of few keys

A queue whose keys are all among some names (`Queue.Named`) has room for every name that is not
there yet if it has room for all of them. So calls on these names never make it let go of an
entry, and leave nothing in the log.
-/
namespace EvictionCache

section Lists

variable {α : Type} [BEq α] [EquivBEq α]

/-- Of things that are all different there are no more than names for them. -/
theorem length_le_of_apart {things names : List α}
    (apart : things.Pairwise fun one other => (one == other) = false)
    (named : ∀ thing ∈ things, ∃ name ∈ names, (name == thing) = true) :
    things.length ≤ names.length := by
  let nameOf (thing : α) : α := (names.find? (· == thing)).getD thing
  have spec (thing : α) (member : thing ∈ things) :
      nameOf thing ∈ names ∧ (nameOf thing == thing) = true := by
    obtain ⟨name, found⟩ := Option.isSome_iff_exists.mp (List.find?_isSome.mpr (named thing member))
    have chosen : nameOf thing = name := congrArg (Option.getD · thing) found
    have same : (name == thing) = true := List.find?_some (p := (· == thing)) found
    rw [chosen]
    exact ⟨List.mem_of_find?_eq_some found, same⟩
  have nodup : (things.map nameOf).Nodup := by
    refine List.pairwise_map.mpr (apart.imp_of_mem fun {one other} member also differ same => ?_)
    have alike := PartialEquivBEq.trans (BEq.symm (spec one member).2) (same ▸ (spec other also).2)
    rw [differ] at alike
    cases alike
  have among : things.map nameOf ⊆ names := by
    intro name member
    obtain ⟨thing, present, rfl⟩ := List.mem_map.mp member
    exact (spec thing present).1
  rw [← List.length_map nameOf]
  exact (List.Nodup.subperm nodup among).length_le

/-- What is left of names without repetition still names everything. -/
theorem exists_mem_eraseDups {names : List α} {thing : α}
    (named : ∃ name ∈ names, (name == thing) = true) :
    ∃ kept ∈ names.eraseDups, (kept == thing) = true := by
  induction length : names.length using Nat.strongRecOn generalizing names with
  | ind bound ih =>
    obtain ⟨name, member, names_thing⟩ := named
    cases names with
    | nil => cases member
    | cons first rest =>
      rw [List.eraseDups_cons]
      cases same : name == first with
      | true =>
        exact ⟨first, List.mem_cons_self, PartialEquivBEq.trans (BEq.symm same) names_thing⟩
      | false =>
        have later : name ∈ rest := by
          rcases List.mem_cons.mp member with rfl | later
          · rw [BEq.rfl] at same
            cases same
          · exact later
        have shorter : (rest.filter fun other => !other == first).length < bound := by
          rw [← length]
          exact Nat.lt_succ_of_le (List.length_filter_le _ _)
        have left : name ∈ rest.filter fun other => !other == first :=
          List.mem_filter.mpr ⟨later, by rw [same]; rfl⟩
        obtain ⟨kept, listed, alike⟩ := ih _ shorter ⟨name, left, names_thing⟩ rfl
        exact ⟨kept, List.mem_cons_of_mem _ listed, alike⟩

end Lists

/-- What is of one of several kinds falls into parts by its kind, if nothing is of two. -/
theorem perm_flatMap_filter {α : Type} {members : List α} {kinds : List (α → Bool)}
    (exclusive : kinds.Pairwise fun one other =>
      ∀ member, other member = true → one member = false)
    (covered : ∀ member ∈ members, ∃ kind ∈ kinds, kind member = true) :
    members.Perm (kinds.flatMap fun kind => members.filter kind) := by
  induction kinds generalizing members with
  | nil =>
    have empty : members = [] := List.eq_nil_iff_forall_not_mem.mpr fun member present => by
      obtain ⟨kind, listed, _⟩ := covered member present
      cases listed
    rw [empty]
    rfl
  | cons first rest ih =>
    obtain ⟨apart, others⟩ := List.pairwise_cons.mp exclusive
    have later : (members.filter fun member => !first member).Perm
        (rest.flatMap fun kind => (members.filter fun member => !first member).filter kind) := by
      refine ih others fun member left => ?_
      obtain ⟨present, other⟩ := List.mem_filter.mp left
      obtain ⟨kind, listed, fits⟩ := covered member present
      rcases List.mem_cons.mp listed with rfl | listed
      · rw [fits] at other
        cases other
      · exact ⟨kind, listed, fits⟩
    have parts :
        (rest.flatMap fun kind => (members.filter fun member => !first member).filter kind) =
          rest.flatMap fun kind => members.filter kind := by
      refine List.flatMap_congr fun kind listed => ?_
      rw [List.filter_filter]
      refine List.filter_congr fun member _ => ?_
      cases fits : kind member with
      | false => rfl
      | true => rw [apart kind listed member fits]; rfl
    rw [parts] at later
    exact (List.filter_append_perm first members).symm.trans (later.append_left _)

variable {κ ν ε ρ : Type} [BEq κ] {policy : Policy}

namespace Queue

/-- A queue whose keys are among some names. -/
def Named (queue : Queue policy κ ν) (names : List κ) : Prop :=
  ∀ entry ∈ queue.entries, ∃ name ∈ names, (name == entry.key) = true

variable {queue : Queue policy κ ν} {names : List κ}

/-- There is room for an absent key among the names if there is room for as many entries as
there are different names. -/
theorem Named.room [EquivBEq κ] (named : queue.Named names)
    (apart : queue.entries.Pairwise fun one other => (one.key == other.key) = false) {key : κ}
    (listed : ∃ name ∈ names, (name == key) = true) (absent : queue.find? key = none) :
    queue.entries.length < names.eraseDups.length := by
  have things : (key :: queue.entries.map Entry.key).length ≤ names.eraseDups.length := by
    refine length_le_of_apart (List.pairwise_cons.mpr ⟨?_, List.pairwise_map.mpr apart⟩) ?_
    · intro other member
      obtain ⟨entry, present, rfl⟩ := List.mem_map.mp member
      rw [BEq.comm]
      exact Bool.eq_false_iff.mpr (List.find?_eq_none.mp absent entry present)
    · intro thing member
      rcases List.mem_cons.mp member with rfl | member
      · exact exists_mem_eraseDups listed
      · obtain ⟨entry, present, rfl⟩ := List.mem_map.mp member
        exact exists_mem_eraseDups (named entry present)
  rwa [List.length_cons, List.length_map] at things

/-- Entries may go. -/
theorem Named.of_sublist (named : queue.Named names) {next : Queue policy κ ν}
    (sublist : next.entries.Sublist queue.entries) : next.Named names :=
  fun entry member => named entry (sublist.subset member)

/-- Entries may be accessed. -/
theorem Named.renew (named : queue.Named names) {key : κ} {entry : Entry κ ν policy.Metadata}
    (found : queue.find? key = some entry) (value : ν) :
    (queue.renew entry value).Named names := by
  intro other member
  rcases List.mem_cons.mp ((policy.perm_place _ _).mem_iff.mp member) with rfl | kept
  · exact named entry (List.mem_of_find?_eq_some found)
  · exact named other (List.mem_of_mem_filter kept)

/-- An entry may come under one of the names. -/
theorem Named.join (named : queue.Named names) {key : κ}
    (listed : ∃ name ∈ names, (name == key) = true) (value : ν) :
    (queue.join key value).Named names := by
  intro other member
  rcases List.mem_cons.mp ((policy.perm_place _ _).mem_iff.mp member) with rfl | kept
  · exact listed
  · exact named other kept

/-- Working on the value of a key keeps the names. -/
theorem Named.visit (named : queue.Named names) (key : κ) (action : ν → ν × ρ) :
    (queue.visit key action).state.Named names := by
  rw [Queue.visit]
  cases found : queue.find? key with
  | none => exact named
  | some entry => exact named.renew found _

/-- Storing a value under one of the names keeps them. -/
theorem Named.insert (named : queue.Named names) {key : κ}
    (listed : ∃ name ∈ names, (name == key) = true) (value : ν) :
    (queue.insert key value).state.Named names := by
  rw [Queue.insert]
  cases found : queue.find? key with
  | some entry => exact named.renew found value
  | none =>
    have roomy : queue.makeRoom.state.Named names := by
      unfold Queue.makeRoom
      split
      · exact named.of_sublist (List.tail_sublist _)
      · exact named
    exact roomy.join listed value

/-- Calls on the names keep a queue among them. -/
theorem Named.perform [BEq ν] (named : queue.Named names) {call : Call κ ν ε ρ} {key : κ}
    (keyed : call.key? = some key) (listed : ∃ name ∈ names, (name == key) = true) :
    (queue.perform call).state.Named names := by
  cases call with
  | get | getMut | getWith | getMutWith => exact named.visit _ _
  | put | push =>
    obtain rfl := Option.some.inj keyed
    exact named.insert listed _
  | remove => exact named.of_sublist List.filter_sublist
  | peek | frequency | containsKey => exact named
  | extend | pop | clear | containsValue | isEmpty | size | capacity | candidate | toList =>
    cases keyed

omit [BEq κ] in
/-- A queue with room makes none. -/
theorem makeRoom_of_room {policy : Policy} {queue : Queue policy κ ν}
    (room : queue.entries.length < queue.capacity) : queue.makeRoom = .silent none queue :=
  if_neg (Nat.not_le_of_lt room)

/-- A call on a key logs nothing if there is room for what it stores. -/
theorem events_perform [BEq ν] {call : Call κ ν ε ρ} {key : κ} (keyed : call.key? = some key)
    (room : queue.find? key = none → queue.entries.length < queue.capacity) :
    (queue.perform call).events = [] := by
  have visited {α : Type} (key : κ) (action : ν → ν × α) :
      (queue.visit key action).events = [] := by
    rw [visit]
    cases queue.find? key <;> rfl
  have stored (value : ν) : (queue.insert key value).events = [] := by
    rw [insert]
    cases found : queue.find? key with
    | some entry => rfl
    | none =>
      rw [makeRoom_of_room (room found)]
      rfl
  cases call with
  | get | getMut | getWith | getMutWith => exact visited _ _
  | put | push =>
    obtain rfl := Option.some.inj keyed
    exact stored _
  | remove | peek | frequency | containsKey => rfl
  | extend | pop | clear | containsValue | isEmpty | size | capacity | candidate | toList =>
    cases keyed

end Queue

end EvictionCache
