import EvictionCache.Cache.Call

/-!
# Plain caches

A plain cache answers the same calls as a cache but keeps its entries as an unordered list of
slots, each with its count of accesses and the times at which it was stored and last accessed.
Every choice is made by looking through the whole list, so the rule of each policy can be read
off `PlainSlot.precedes`. Nothing is logged and no metrics are kept.
-/
namespace EvictionCache

/-- An entry with its history. -/
structure PlainSlot (κ ν : Type) where
  /-- The key that created the entry. -/
  key : κ
  /-- The current value. -/
  value : ν
  /-- Number of accesses. -/
  frequency : Nat
  /-- When the entry was stored. -/
  storedAt : Nat
  /-- When the entry was last accessed. -/
  accessedAt : Nat

namespace PlainSlot

variable {κ ν : Type}

/-- The key and the value. -/
def pair (slot : PlainSlot κ ν) : κ × ν := (slot.key, slot.value)

/-- What decides first and what breaks ties under a policy; smaller is evicted first. -/
def priority (slot : PlainSlot κ ν) : Policy → Nat × Nat
  | .lru => (0, slot.accessedAt)
  | .lfu => (slot.frequency, slot.storedAt)
  | .lfru => (slot.frequency, slot.accessedAt)

/-- Whether one slot is evicted before another under a policy. -/
def precedes (policy : Policy) (left right : PlainSlot κ ν) : Bool :=
  let (first, tie) := left.priority policy
  let (otherFirst, otherTie) := right.priority policy
  first < otherFirst || (first == otherFirst && tie < otherTie)

/-- The slot that is evicted first, found by looking at each in turn. -/
def first? (policy : Policy) (slots : List (PlainSlot κ ν)) : Option (PlainSlot κ ν) :=
  slots.foldl
    (fun best slot =>
      match best with
      | none => some slot
      | some chosen => if slot.precedes policy chosen then some slot else some chosen)
    none

/-- The slot after an access at some time that changes its value. A count at `UInt64.size - 1`
stays. -/
def accessed (slot : PlainSlot κ ν) (change : ν → ν) (clock : Nat) : PlainSlot κ ν :=
  { slot with
    value := change slot.value
    frequency := min (slot.frequency + 1) (UInt64.size - 1)
    accessedAt := clock }

/-- The access count, under the policies that keep one. -/
def frequency? (slot : PlainSlot κ ν) : Policy → Option Nat
  | .lru => none
  | .lfu | .lfru => some slot.frequency

end PlainSlot

/-- Entries in no particular order, with a clock. -/
structure PlainCache (policy : Policy) (κ ν : Type) where
  /-- The greatest number of entries. -/
  capacity : Nat
  /-- The entries. -/
  slots : List (PlainSlot κ ν)
  /-- The time of the next access. -/
  clock : Nat

namespace PlainCache

variable {policy : Policy} {κ ν ε ρ α : Type}

/-- A plain cache without entries. -/
def ofCapacity (capacity : Capacity) : PlainCache policy κ ν := ⟨capacity.entries, [], 0⟩

/-- The slot that is evicted first. -/
def first? (cache : PlainCache policy κ ν) : Option (PlainSlot κ ν) :=
  PlainSlot.first? policy cache.slots

/-- All slots in the order of eviction. -/
def ordered (cache : PlainCache policy κ ν) : List (PlainSlot κ ν) :=
  cache.slots.mergeSort fun left right => !right.precedes policy left

/-- All pairs in the order of eviction. -/
def toList (cache : PlainCache policy κ ν) : List (κ × ν) :=
  cache.ordered.map PlainSlot.pair

/-- Deletes the slots of a time of storing; there is one at most. -/
def deleteStoredAt (cache : PlainCache policy κ ν) (time : Nat) : PlainCache policy κ ν :=
  { cache with slots := cache.slots.filter fun slot => slot.storedAt != time }

/-- Deletes the slot that is evicted first and returns it. -/
def takeFirst (cache : PlainCache policy κ ν) :
    Option (PlainSlot κ ν) × PlainCache policy κ ν :=
  match cache.first? with
  | none => (none, cache)
  | some slot => (some slot, cache.deleteStoredAt slot.storedAt)

variable [BEq κ]

/-- The slot of a key. -/
def find? (cache : PlainCache policy κ ν) (key : κ) : Option (PlainSlot κ ν) :=
  cache.slots.find? fun slot => slot.key == key

/-- Counts an access to a key now, and changes its value. -/
def access (cache : PlainCache policy κ ν) (key : κ) (change : ν → ν) :
    PlainCache policy κ ν :=
  { cache with
    slots := cache.slots.map fun slot =>
      if slot.key == key then slot.accessed change cache.clock else slot
    clock := cache.clock + 1 }

/-- Runs an action on the value of a key. Counts as an access. -/
def visit (cache : PlainCache policy κ ν) (key : κ) (action : ν → ν × ρ) :
    Option ρ × PlainCache policy κ ν :=
  match cache.find? key with
  | none => (none, cache)
  | some slot =>
    (some (action slot.value).2, cache.access key fun value => (action value).1)

/-- Adds a slot now, with a single access. -/
def addSlot (cache : PlainCache policy κ ν) (key : κ) (value : ν) : PlainCache policy κ ν :=
  { cache with
    slots := ⟨key, value, 1, cache.clock, cache.clock⟩ :: cache.slots
    clock := cache.clock + 1 }

/-- Deletes the slot that is evicted first, unless another one fits beside those present. -/
def makeRoom (cache : PlainCache policy κ ν) :
    Option (PlainSlot κ ν) × PlainCache policy κ ν :=
  if cache.capacity ≤ cache.slots.length then cache.takeFirst else (none, cache)

/-- Stores a value under a key. For a present key, what is told depends on its slot as it was; for
an absent key, on the slot that made room, if one had to. -/
def store (cache : PlainCache policy κ ν) (key : κ) (value : ν) (ofPresent : PlainSlot κ ν → α)
    (ofDeleted : Option (PlainSlot κ ν) → α) : α × PlainCache policy κ ν :=
  match cache.find? key with
  | some slot => (ofPresent slot, cache.access key fun _ => value)
  | none =>
    let (deleted, cache) := cache.makeRoom
    (ofDeleted deleted, cache.addSlot key value)

/-- Stores a value under a key and returns the one that it replaced. What made room for an absent
key is not told. -/
def put (cache : PlainCache policy κ ν) (key : κ) (value : ν) :
    Option ν × PlainCache policy κ ν :=
  cache.store key value (fun slot => some slot.value) fun _ => none

/-- Stores a value under a key and returns the pair that it displaced: the key as it was given now
with the value that was replaced, or the pair that made room. -/
def push (cache : PlainCache policy κ ν) (key : κ) (value : ν) :
    Option (κ × ν) × PlainCache policy κ ν :=
  cache.store key value (fun slot => some (key, slot.value)) fun deleted =>
    deleted.map PlainSlot.pair

/-- Stores pairs one after another. -/
def extend (cache : PlainCache policy κ ν) (pairs : List (κ × ν)) : PlainCache policy κ ν :=
  pairs.foldl (fun cache pair => (cache.put pair.1 pair.2).2) cache

/-- Removes a key and returns its value. -/
def remove (cache : PlainCache policy κ ν) (key : κ) : Option ν × PlainCache policy κ ν :=
  match cache.find? key with
  | none => (none, cache)
  | some slot => (some slot.value, cache.deleteStoredAt slot.storedAt)

variable [BEq ν]

/-- Carries out one call. -/
def perform (cache : PlainCache policy κ ν) :
    Call κ ν ε ρ → Reply κ ν ε ρ × PlainCache policy κ ν
  | .get key =>
    let (value, cache) := cache.visit key fun value => (value, value)
    (.value value, cache)
  | .getMut key write =>
    let (value, cache) := cache.visit key fun value => (write value, value)
    (.value value, cache)
  | .getWith key result =>
    let (outcome, cache) := cache.visit key fun value => (value, result value)
    (.result outcome, cache)
  | .getMutWith key closure =>
    let (outcome, cache) := cache.visit key closure.run
    (.result outcome, cache)
  | .peek key => (.value ((cache.find? key).map PlainSlot.value), cache)
  | .put key value =>
    let (replaced, cache) := cache.put key value
    (.value replaced, cache)
  | .push key value =>
    let (displaced, cache) := cache.push key value
    (.pair displaced, cache)
  | .extend pairs => (.done, cache.extend pairs)
  | .remove key =>
    let (value, cache) := cache.remove key
    (.value value, cache)
  | .pop =>
    let (slot, cache) := cache.takeFirst
    (.pair (slot.map PlainSlot.pair), cache)
  | .clear => (.done, { cache with slots := [] })
  | .frequency key =>
    (.count ((cache.find? key).bind fun slot => slot.frequency? policy), cache)
  | .containsKey key => (.truth (cache.find? key).isSome, cache)
  | .containsValue value => (.truth (cache.slots.any fun slot => slot.value == value), cache)
  | .isEmpty => (.truth cache.slots.isEmpty, cache)
  | .size => (.number cache.slots.length, cache)
  | .capacity => (.number cache.capacity, cache)
  | .candidate => (.pair (cache.first?.map PlainSlot.pair), cache)
  | .toList => (.pairs cache.toList, cache)

/-- Carries out calls one after another and collects their answers. -/
def run (cache : PlainCache policy κ ν) :
    List (Call κ ν ε ρ) → List (Reply κ ν ε ρ) × PlainCache policy κ ν
  | [] => ([], cache)
  | call :: rest =>
    let (reply, cache) := cache.perform call
    let (replies, cache) := cache.run rest
    (reply :: replies, cache)

end PlainCache

end EvictionCache
