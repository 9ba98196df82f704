import EvictionCache.Entry
import EvictionCache.Policy
import EvictionCache.Proofs.Listing
import Mathlib.Data.List.Sort

/-!
# The order of eviction

`Policy.Before` compares an entry that takes its place now with one that is already in place: it
says whether the new one is evicted first. Under every policy this is a strict weak order, so an
entry has one place in a list that is in order, right before the first entry that it precedes.
`Policy.place` puts it there. Under recency that is always the end; in buckets it is the end of
its own bucket; in a ranking it is the place of its rank.
-/
namespace EvictionCache

/-- A list stays in an order when an element is inserted before the first that it is compared
to be before, if the comparison agrees with the order. -/
theorem pairwise_orderedInsert {α : Type} {compared order : α → α → Prop} [DecidableRel compared]
    {new : α} {members : List α} (sorted : members.Pairwise order)
    (earlier : ∀ old ∈ members, compared new old → order new old)
    (later : ∀ old ∈ members, ¬ compared new old → order old new)
    (through : ∀ old ∈ members, ∀ other ∈ members,
      compared new old → order old other → order new other) :
    (members.orderedInsert compared new).Pairwise order := by
  induction members with
  | nil => exact List.pairwise_singleton _ _
  | cons first rest ih =>
    obtain ⟨head, tail⟩ := List.pairwise_cons.mp sorted
    rw [List.orderedInsert_cons]
    split
    · next before =>
      refine List.pairwise_cons.mpr ⟨fun other member => ?_, sorted⟩
      rcases List.mem_cons.mp member with rfl | member
      · exact earlier _ List.mem_cons_self before
      · exact through first List.mem_cons_self other (List.mem_cons_of_mem _ member) before
          (head other member)
    · next after =>
      refine List.pairwise_cons.mpr ⟨fun other member => ?_, ?_⟩
      · rcases (List.mem_orderedInsert _).mp member with rfl | member
        · exact later first List.mem_cons_self after
        · exact head other member
      · exact ih tail (fun old member => earlier old (List.mem_cons_of_mem _ member))
          (fun old member => later old (List.mem_cons_of_mem _ member))
          fun old member other another =>
            through old (List.mem_cons_of_mem _ member) other (List.mem_cons_of_mem _ another)

/-- One more access adds one to a count, unless the count is the greatest of 64 bits. -/
theorem nextCount_eq (count : Nat) : nextCount count = min (count + 1) (UInt64.size - 1) := rfl

namespace Policy

/-- What an entry carries after one more access. -/
def accessed : (policy : Policy) → policy.Metadata → policy.Metadata
  | lru, _ => ()
  | lfu, rank => rank.increment
  | lfru, count => count.increment

/-- The number of entries stored before an entry, under the policy that keeps it. -/
def sequence? : (policy : Policy) → policy.Metadata → Option Nat
  | lru, _ => none
  | lfu, rank => some rank.sequence
  | lfru, _ => none

/-- What the first entry ever stored carries. -/
def first : (policy : Policy) → policy.Metadata
  | lru => ()
  | lfu => .initial 0
  | lfru => .initial

/-- What the entry stored after the next one carries, given what the next one carries. -/
def following : (policy : Policy) → policy.Metadata → policy.Metadata
  | lru, _ => ()
  | lfu, rank => .initial (rank.sequence + 1)
  | lfru, _ => .initial

/-- An access counts as one more. -/
theorem frequency?_accessed (policy : Policy) (metadata : policy.Metadata) :
    policy.frequency? (policy.accessed metadata) =
      (policy.frequency? metadata).map nextCount := by
  cases policy <;> rfl

/-- An access does not change the order of insertion. -/
theorem sequence?_accessed (policy : Policy) (metadata : policy.Metadata) :
    policy.sequence? (policy.accessed metadata) = policy.sequence? metadata := by
  cases policy <;> rfl

/-- The entry stored next has one more entry before it. -/
theorem sequence?_following (policy : Policy) (metadata : policy.Metadata) :
    policy.sequence? (policy.following metadata) = (policy.sequence? metadata).map (· + 1) := by
  cases policy <;> rfl

/-- Whether an entry that takes its place now is evicted before one already in place. -/
def Before : (policy : Policy) → policy.Metadata → policy.Metadata → Prop
  | lru, _, _ => False
  | lfu, new, old =>
    new.frequency < old.frequency ∨ new.frequency = old.frequency ∧ new.sequence < old.sequence
  | lfru, new, old => new.frequency < old.frequency

instance : (policy : Policy) → DecidableRel policy.Before
  | lru => fun _ _ => inferInstanceAs (Decidable False)
  | lfu => fun new old => inferInstanceAs (Decidable (_ < _ ∨ _ = _ ∧ new.sequence < old.sequence))
  | lfru => fun new old => inferInstanceAs (Decidable (new.frequency < old.frequency))

variable {policy : Policy}

/-- No two entries are evicted before each other. -/
theorem before_asymm {left right : policy.Metadata} (before : policy.Before left right) :
    ¬ policy.Before right left := by
  cases policy <;> simp only [Before] at before ⊢ <;> omega

/-- What precedes an entry precedes all that do not precede that entry. -/
theorem before_of_not_before {left middle right : policy.Metadata}
    (before : policy.Before left middle) (later : ¬ policy.Before right middle) :
    policy.Before left right := by
  cases policy <;> simp only [Before] at before later ⊢ <;> omega

variable {κ ν : Type}

/-- Whether entries stand in the order of eviction. -/
def Ordered (policy : Policy) (entries : List (Entry κ ν policy.Metadata)) : Prop :=
  entries.Pairwise fun first second => ¬ policy.Before second.metadata first.metadata

/-- Whether entries stand in order depends on what they carry alone. -/
theorem Ordered.congr {entries others : List (Entry κ ν policy.Metadata)}
    (ordered : policy.Ordered entries)
    (same : others.map Entry.metadata = entries.map Entry.metadata) : policy.Ordered others := by
  have carried : (entries.map Entry.metadata).Pairwise fun first second =>
      ¬ policy.Before second first := List.pairwise_map.mpr ordered
  rw [← same] at carried
  exact List.pairwise_map.mp carried

/-- Puts an entry in its place among others. -/
def place (policy : Policy) (entry : Entry κ ν policy.Metadata)
    (entries : List (Entry κ ν policy.Metadata)) : List (Entry κ ν policy.Metadata) :=
  entries.orderedInsert (fun new old => policy.Before new.metadata old.metadata) entry

/-- Puts an entry that bears a tag in its place among others. -/
def placeCell {τ : Type} (policy : Policy) (cell : τ × Entry κ ν policy.Metadata)
    (cells : List (τ × Entry κ ν policy.Metadata)) : List (τ × Entry κ ν policy.Metadata) :=
  cells.orderedInsert (fun new old => policy.Before new.2.metadata old.2.metadata) cell

/-- An entry takes its place without its tag as it does with it. -/
@[simp] theorem map_snd_placeCell {τ : Type} (cell : τ × Entry κ ν policy.Metadata)
    (cells : List (τ × Entry κ ν policy.Metadata)) :
    (policy.placeCell cell cells).map Prod.snd = policy.place cell.2 (cells.map Prod.snd) :=
  List.map_orderedInsert _ _ Prod.snd cells cell (fun _ _ => Iff.rfl) (fun _ _ => Iff.rfl)

/-- A change that keeps what the entries carry may be made before or after placing. -/
theorem map_placeCell {τ : Type}
    {change : τ × Entry κ ν policy.Metadata → τ × Entry κ ν policy.Metadata}
    (kept : ∀ cell, (change cell).2.metadata = cell.2.metadata)
    (cell : τ × Entry κ ν policy.Metadata) (cells : List (τ × Entry κ ν policy.Metadata)) :
    (policy.placeCell cell cells).map change =
      policy.placeCell (change cell) (cells.map change) := by
  apply List.map_orderedInsert
  · intro other _
    rw [kept, kept]
  · intro other _
    rw [kept, kept]

/-- The value of an entry may be replaced before or after the entry takes its place. -/
theorem mapAt_placeCell_without (listing : Listing (Entry κ ν policy.Metadata)) (slot : SlotId)
    (entry : Entry κ ν policy.Metadata) (value : ν) :
    Listing.mapAt (policy.placeCell (slot, entry) (listing.without slot)) slot
        (fun entry => entry.withValue value) =
      policy.placeCell (slot, entry.withValue value) (listing.without slot) := by
  have kept : ∀ cell : SlotId × Entry κ ν policy.Metadata,
      (if cell.1 = slot then (cell.1, cell.2.withValue value) else cell).2.metadata =
        cell.2.metadata := by
    intro cell
    split <;> rfl
  have placed := map_placeCell kept (slot, entry) (listing.without slot)
  rw [if_pos rfl] at placed
  exact placed.trans (congrArg _ (listing.mapAt_without slot fun entry => entry.withValue value))

/-- Placing adds the new cell and keeps the others. -/
theorem placeCell_perm {τ : Type} (cell : τ × Entry κ ν policy.Metadata)
    (cells : List (τ × Entry κ ν policy.Metadata)) :
    (policy.placeCell cell cells).Perm (cell :: cells) :=
  List.perm_orderedInsert _ cell cells

/-- Placing keeps entries in order. -/
theorem Ordered.place {entries : List (Entry κ ν policy.Metadata)}
    (ordered : policy.Ordered entries) (entry : Entry κ ν policy.Metadata) :
    policy.Ordered (policy.place entry entries) := by
  apply pairwise_orderedInsert ordered
  · exact fun other _ before => before_asymm before
  · exact fun other _ later => later
  · exact fun other _ another _ before later =>
      before_asymm (before_of_not_before before later)

/-- Listed entries stand in order if no later one precedes an earlier one. -/
theorem ordered_map_snd {listing : Listing (Entry κ ν policy.Metadata)} :
    policy.Ordered (listing.map Prod.snd) ↔ listing.Pairwise fun first second =>
      ¬ policy.Before second.2.metadata first.2.metadata := List.pairwise_map

/-- Under recency an entry takes its place at the end. -/
theorem placeCell_lru (cell : SlotId × Entry κ ν Unit) (listing : Listing (Entry κ ν Unit)) :
    placeCell .lru cell listing = listing ++ [cell] := by
  induction listing with
  | nil => rfl
  | cons first rest ih =>
    rw [placeCell, List.orderedInsert_cons, if_neg (id : ¬ Before .lru _ _), List.cons_append]
    exact congrArg _ ih

end Policy

end EvictionCache
