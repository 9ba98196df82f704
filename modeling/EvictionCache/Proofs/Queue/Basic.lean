import EvictionCache.Cache.Call
import EvictionCache.Proofs.Order

/-!
# Queues

A queue answers the same calls as a cache but is nothing more than the list of entries in the
order of eviction. Looking a key up goes through the list, an access takes an entry out of the
list and places it anew, and the first entry of the list makes room. A cache does what its
queue does; whatever is to be shown about answers or about the order of eviction can be shown
about lists.
-/
namespace EvictionCache

/-- Entries in the order of eviction. -/
structure Queue (policy : Policy) (κ ν : Type) where
  /-- The greatest number of entries. -/
  capacity : Nat
  /-- The entries, the one to be evicted first at the head. -/
  entries : List (Entry κ ν policy.Metadata)
  /-- What the next new entry carries. -/
  fresh : policy.Metadata

namespace Queue

variable {policy : Policy} {κ ν ε ρ : Type}

/-- A queue without entries. -/
def ofCapacity (capacity : Capacity) : Queue policy κ ν := ⟨capacity.entries, [], policy.first⟩

/-- Adds an entry at its place. -/
def join (queue : Queue policy κ ν) (key : κ) (value : ν) : Queue policy κ ν :=
  { queue with
    entries := policy.place ⟨key, value, queue.fresh⟩ queue.entries
    fresh := policy.following queue.fresh }

/-- Lets go of the first entry. -/
def dropFirst (queue : Queue policy κ ν) : Queue policy κ ν :=
  { queue with entries := queue.entries.tail }

/-- Lets go of the first entry if the queue is full. -/
def makeRoom (queue : Queue policy κ ν) :
    Outcome (Queue policy κ ν) (Option (Entry κ ν policy.Metadata)) :=
  if queue.capacity ≤ queue.entries.length then
    ⟨queue.entries.head?, queue.dropFirst, [.evicted policy]⟩
  else .silent none queue

/-- Removes and returns the first pair. -/
def pop (queue : Queue policy κ ν) : Outcome (Queue policy κ ν) (Option (κ × ν)) :=
  .silent (queue.entries.head?.map Entry.pair) queue.dropFirst

/-- Removes every entry. -/
def clear (queue : Queue policy κ ν) : Outcome (Queue policy κ ν) Unit :=
  ⟨(), { queue with entries := [] }, [.clearing policy queue.entries.length]⟩

variable [BEq κ]

/-- The entry of a key. -/
def find? (queue : Queue policy κ ν) (key : κ) : Option (Entry κ ν policy.Metadata) :=
  queue.entries.find? fun entry => entry.key == key

/-- The queue without a key. -/
def discard (queue : Queue policy κ ν) (key : κ) : Queue policy κ ν :=
  { queue with entries := queue.entries.filter fun entry => !(entry.key == key) }

/-- Counts an access to an entry and gives it a value: it leaves its place for its new one. -/
def renew (queue : Queue policy κ ν) (entry : Entry κ ν policy.Metadata) (value : ν) :
    Queue policy κ ν :=
  { queue with
    entries := policy.place ⟨entry.key, value, policy.accessed entry.metadata⟩
      (queue.discard entry.key).entries }

/-- Runs an action on the value of a key. Counts as an access. -/
def visit (queue : Queue policy κ ν) (key : κ) (action : ν → ν × ρ) :
    Outcome (Queue policy κ ν) (Option ρ) :=
  match queue.find? key with
  | none => .silent none queue
  | some entry =>
    .silent (some (action entry.value).2) (queue.renew entry (action entry.value).1)

/-- Stores a value under a key and returns what it displaced. -/
def insert (queue : Queue policy κ ν) (key : κ) (value : ν) :
    Outcome (Queue policy κ ν) (Option (Displaced κ ν)) :=
  match queue.find? key with
  | some entry => .silent (some (.replaced key entry.value)) (queue.renew entry value)
  | none =>
    queue.makeRoom.andThen fun evicted queue =>
      .silent (evicted.map fun entry => .evicted entry.key entry.value) (queue.join key value)

/-- Stores a value under a key and returns the value it replaced. -/
def put (queue : Queue policy κ ν) (key : κ) (value : ν) :
    Outcome (Queue policy κ ν) (Option ν) :=
  (queue.insert key value).map fun displaced => displaced.bind Displaced.replacedValue?

/-- Stores pairs one after another. -/
def extend (queue : Queue policy κ ν) : List (κ × ν) → Outcome (Queue policy κ ν) Unit
  | [] => .silent () queue
  | pair :: rest => (queue.put pair.1 pair.2).andThen fun _ queue => queue.extend rest

/-- Removes a key and returns its pair under the stored spelling. -/
def removeEntry (queue : Queue policy κ ν) (key : κ) :
    Outcome (Queue policy κ ν) (Option (κ × ν)) :=
  .silent ((queue.find? key).map Entry.pair) (queue.discard key)

variable [BEq ν]

/-- Carries out one call. -/
def perform (queue : Queue policy κ ν) :
    Call κ ν ε ρ → Outcome (Queue policy κ ν) (Reply κ ν ε ρ)
  | .get key => (queue.visit key fun value => (value, value)).map .value
  | .getMut key write => (queue.visit key fun value => (write value, value)).map .value
  | .getWith key result => (queue.visit key fun value => (value, result value)).map .result
  | .getMutWith key closure => (queue.visit key closure.run).map .result
  | .peek key => .silent (.value ((queue.find? key).map Entry.value)) queue
  | .put key value => (queue.put key value).map .value
  | .push key value =>
    (queue.insert key value).map fun displaced => .pair (displaced.map Displaced.pair)
  | .extend pairs => (queue.extend pairs).map fun _ => .done
  | .remove key => (queue.removeEntry key).map fun pair => .value (pair.map Prod.snd)
  | .pop => queue.pop.map .pair
  | .clear => queue.clear.map fun _ => .done
  | .frequency key =>
    .silent (.count ((queue.find? key).bind fun entry => policy.frequency? entry.metadata)) queue
  | .containsKey key => .silent (.truth (queue.find? key).isSome) queue
  | .containsValue value =>
    .silent (.truth (queue.entries.any fun entry => entry.value == value)) queue
  | .isEmpty => .silent (.truth queue.entries.isEmpty) queue
  | .size => .silent (.number queue.entries.length) queue
  | .capacity => .silent (.number queue.capacity) queue
  | .candidate => .silent (.pair (queue.entries.head?.map Entry.pair)) queue
  | .toList => .silent (.pairs (queue.entries.map Entry.pair)) queue

/-- Carries out calls one after another and collects their answers. -/
def run (queue : Queue policy κ ν) :
    List (Call κ ν ε ρ) → Outcome (Queue policy κ ν) (List (Reply κ ν ε ρ))
  | [] => .silent [] queue
  | call :: rest =>
    (queue.perform call).andThen fun reply queue =>
      (queue.run rest).map fun replies => reply :: replies

omit [BEq ν]

/-- Reading the value of a key gives what is made of it. -/
theorem visit_reading (queue : Queue policy κ ν) (key : κ) (result : ν → ρ) :
    (queue.visit key fun value => (value, result value)) =
      (queue.visit key fun value => (value, value)).map fun value => value.map result := by
  unfold visit
  cases queue.find? key <;> rfl

/-- Discarding a key that is nowhere in the queue changes nothing. -/
theorem discard_of_find?_eq_none {queue : Queue policy κ ν} {key : κ}
    (absent : queue.find? key = none) : queue.discard key = queue := by
  have kept : queue.entries.filter (fun entry => !(entry.key == key)) = queue.entries := by
    apply List.filter_eq_self.mpr
    intro entry member
    simpa using List.find?_eq_none.mp absent entry member
  rw [discard, kept]

/-- A key that is nowhere in the queue is nowhere after the first entry has left. -/
theorem find?_dropFirst {queue : Queue policy κ ν} {key : κ} (absent : queue.find? key = none) :
    queue.dropFirst.find? key = none := by
  apply List.find?_eq_none.mpr
  intro entry member
  exact List.find?_eq_none.mp absent entry (List.mem_of_mem_tail member)

/-- A key that is nowhere in the queue is nowhere after room was made. -/
theorem find?_makeRoom {queue : Queue policy κ ν} {key : κ} (absent : queue.find? key = none) :
    queue.makeRoom.state.find? key = none := by
  unfold makeRoom
  split
  · exact find?_dropFirst absent
  · exact absent

omit [BEq κ]

/-- There is room for an entry after room was made. -/
theorem length_makeRoom {queue : Queue policy κ ν} (positive : 0 < queue.capacity)
    (bounded : queue.entries.length ≤ queue.capacity) :
    queue.makeRoom.state.entries.length < queue.makeRoom.state.capacity := by
  unfold makeRoom
  split
  · change queue.entries.tail.length < queue.capacity
    rw [List.length_tail]
    omega
  · next room => exact Nat.lt_of_not_le room

end Queue

end EvictionCache
