import EvictionCache.Slot.Lemmas
import Mathlib.Data.List.Nodup

/-!
# Listings of occupied slots

A listing names each occupied slot of a store once, with what the slot holds. Several listings
describe one store and differ in their order alone; the stores of the policies choose the order
of eviction. `Listing.Covers` ties a listing to the look-up by slot, and each way in which a
look-up can change has one lemma here that says how its listing changes.
-/
namespace EvictionCache

/-- A search finds the only member that fits. -/
theorem find?_eq_some_of_unique {α : Type} {members : List α} {fits : α → Bool} {sought : α}
    (member : sought ∈ members) (fit : fits sought = true)
    (unique : ∀ other ∈ members, fits other = true → other = sought) :
    members.find? fits = some sought := by
  cases found : members.find? fits with
  | none => exact absurd fit (List.find?_eq_none.mp found sought member)
  | some other =>
    rw [unique other (List.mem_of_find?_eq_some found) (List.find?_some found)]

/-- The only member that fits can be taken out, which leaves those that do not fit. -/
theorem perm_cons_filter_of_unique {α : Type} {members : List α} {fits : α → Bool} {sought : α}
    (nodup : members.Nodup) (member : sought ∈ members) (fit : fits sought = true)
    (unique : ∀ other ∈ members, fits other = true → other = sought) :
    members.Perm (sought :: members.filter fun other => !fits other) := by
  have chosen : (members.filter fits).Perm [sought] := by
    apply (List.perm_ext_iff_of_nodup (nodup.filter _) (List.nodup_singleton _)).mpr
    intro other
    rw [List.mem_filter, List.mem_singleton]
    constructor
    · exact fun found => unique other found.1 found.2
    · rintro rfl
      exact ⟨member, fit⟩
  rw [List.perm_singleton] at chosen
  have split := List.filter_append_perm fits members
  rw [chosen] at split
  exact split.symm

/-- Slots with what they hold. -/
abbrev Listing (β : Type) := List (SlotId × β)

namespace Listing

variable {β : Type}

/-- The listing without a slot. -/
def without (listing : Listing β) (slot : SlotId) : Listing β :=
  listing.filter fun cell => cell.1 ≠ slot

/-- The listing with the content of one slot changed in place. -/
def mapAt (listing : Listing β) (slot : SlotId) (change : β → β) : Listing β :=
  listing.map fun cell => if cell.1 = slot then (cell.1, change cell.2) else cell

/-- A listing names exactly the slots in which a look-up finds something, each once and with
what is found there. -/
structure Covers (listing : Listing β) (content? : SlotId → Option β) : Prop where
  /-- No slot is named twice. -/
  nodup : (listing.map Prod.fst).Nodup
  /-- What is named is what is found. -/
  mem_iff : ∀ slot value, (slot, value) ∈ listing ↔ content? slot = some value

@[simp] theorem mem_without {listing : Listing β} {slot : SlotId} {cell : SlotId × β} :
    cell ∈ listing.without slot ↔ cell ∈ listing ∧ cell.1 ≠ slot := by
  simp [without]

/-- Leaving a slot out of a listing keeps the order of the others. -/
theorem without_sublist (listing : Listing β) (slot : SlotId) :
    (listing.without slot).Sublist listing := List.filter_sublist

/-- Without a slot that it does not name a listing stays as it is. -/
theorem without_eq_self {listing : Listing β} {slot : SlotId}
    (absent : slot ∉ listing.map Prod.fst) : listing.without slot = listing := by
  apply List.filter_eq_self.mpr
  intro cell member
  have apart : cell.1 ≠ slot := fun same => absent (List.mem_map.mpr ⟨cell, member, same⟩)
  exact decide_eq_true apart

/-- A slot is named with its old content changed, or with its old content. -/
theorem mem_mapAt {listing : Listing β} {slot name : SlotId} {change : β → β} {value : β} :
    (name, value) ∈ listing.mapAt slot change ↔
      ∃ held, (name, held) ∈ listing ∧ (if name = slot then change held else held) = value := by
  rw [mapAt, List.mem_map]
  constructor
  · rintro ⟨⟨here, held⟩, member, same⟩
    dsimp only at same
    split at same
    · next hit =>
      obtain ⟨rfl, rfl⟩ := Prod.mk.inj same
      exact ⟨held, member, if_pos hit⟩
    · next miss =>
      obtain ⟨rfl, rfl⟩ := Prod.mk.inj same
      exact ⟨held, member, if_neg miss⟩
  · rintro ⟨held, member, rfl⟩
    refine ⟨(name, held), member, ?_⟩
    dsimp only
    split <;> rfl

/-- The names of a listing do not change with the content of a slot. -/
@[simp] theorem map_fst_mapAt (listing : Listing β) (slot : SlotId) (change : β → β) :
    (listing.mapAt slot change).map Prod.fst = listing.map Prod.fst := by
  rw [mapAt, List.map_map]
  apply List.map_congr_left
  intro cell _
  simp only [Function.comp_apply]
  split <;> rfl

/-- What does not change with the content of a slot is the same in both listings. -/
theorem map_mapAt {γ : Type} (listing : Listing β) (slot : SlotId) (change : β → β)
    (aspect : β → γ) (kept : ∀ value, aspect (change value) = aspect value) :
    (listing.mapAt slot change).map (fun cell => aspect cell.2) =
      listing.map fun cell => aspect cell.2 := by
  rw [mapAt, List.map_map]
  apply List.map_congr_left
  intro cell _
  simp only [Function.comp_apply]
  split
  · exact kept cell.2
  · rfl

/-- A slot that is left out has no content to change. -/
theorem mapAt_without (listing : Listing β) (slot : SlotId) (change : β → β) :
    (listing.without slot).mapAt slot change = listing.without slot := by
  have unchanged : (listing.without slot).mapAt slot change = (listing.without slot).map id := by
    apply List.map_congr_left
    intro cell member
    exact if_neg (mem_without.mp member).2
  rw [unchanged, List.map_id]

namespace Covers

variable {listing other : Listing β} {content? changed? : SlotId → Option β} {slot : SlotId}

/-- A look-up that finds nothing is covered by the empty listing. -/
theorem nil (vacant : ∀ slot, content? slot = none) : Covers [] content? where
  nodup := List.nodup_nil
  mem_iff slot value := by simp [vacant slot]

/-- The order of a listing is free. -/
theorem perm (covers : listing.Covers content?) (same : other.Perm listing) :
    other.Covers content? where
  nodup := (same.map Prod.fst).nodup_iff.mpr covers.nodup
  mem_iff slot value := same.mem_iff.trans (covers.mem_iff slot value)

/-- A listing covers every look-up that finds the same. -/
theorem congr (covers : listing.Covers content?)
    (same : ∀ slot, changed? slot = content? slot) : listing.Covers changed? where
  nodup := covers.nodup
  mem_iff slot value := by rw [same]; exact covers.mem_iff slot value

/-- A slot is named with one content only. -/
theorem value_eq (covers : listing.Covers content?) {value held : β}
    (member : (slot, value) ∈ listing) (again : (slot, held) ∈ listing) : value = held := by
  rw [covers.mem_iff] at member again
  exact Option.some.inj (member.symm.trans again)

/-- A slot that is named was found occupied. -/
theorem isSome_iff (covers : listing.Covers content?) :
    (content? slot).isSome ↔ slot ∈ listing.map Prod.fst := by
  simp [Option.isSome_iff_exists, ← covers.mem_iff]

/-- An arena that is occupied where the look-up finds something is as large as the listing is
long. -/
theorem size_eq (covers : listing.Covers content?) {α : Type} {arena : Arena α}
    (wellFormed : arena.WellFormed)
    (same : ∀ slot, (content? slot).isSome = arena.isLive slot) : arena.size = listing.length := by
  rw [← List.length_map Prod.fst]
  exact wellFormed.size_eq_length covers.nodup fun slot => by rw [← covers.isSome_iff, same]

/-- Looking up the names of a listing in turn finds its contents. -/
theorem filterMap_names (covers : listing.Covers content?) :
    (listing.map Prod.fst).filterMap content? = listing.map Prod.snd := by
  rw [List.filterMap_map, show listing.map Prod.snd = listing.filterMap (some ∘ Prod.snd) by simp]
  apply List.filterMap_congr
  intro cell member
  exact (covers.mem_iff cell.1 cell.2).mp member

/-- A named slot splits the listing into what comes before it and what comes after, and leaving
it out joins the two. -/
theorem exists_split (covers : listing.Covers content?) {value : β}
    (member : (slot, value) ∈ listing) :
    ∃ before after, listing = before ++ (slot, value) :: after ∧
      listing.without slot = before ++ after := by
  obtain ⟨before, after, rfl⟩ := List.append_of_mem member
  refine ⟨before, after, rfl, ?_⟩
  have names := covers.nodup
  rw [List.map_append, List.map_cons] at names
  obtain ⟨_, nodupFrom, disjoint⟩ := List.nodup_append.mp names
  have absentAfter := (List.nodup_cons.mp nodupFrom).1
  have keptBefore : before.filter (fun cell => cell.1 ≠ slot) = before := by
    apply List.filter_eq_self.mpr
    intro cell here
    simpa using disjoint cell.1 (List.mem_map_of_mem here) slot List.mem_cons_self
  have keptAfter : after.filter (fun cell => cell.1 ≠ slot) = after :=
    without_eq_self absentAfter
  rw [Listing.without, List.filter_append, keptBefore, List.filter_cons_of_neg (by simp),
    keptAfter]

/-- A listing consists of a slot that it names and of the listing without that slot. -/
theorem perm_cons_without (covers : listing.Covers content?) {value : β}
    (member : (slot, value) ∈ listing) :
    listing.Perm ((slot, value) :: listing.without slot) := by
  obtain ⟨before, after, split, joined⟩ := covers.exists_split member
  rw [joined, split]
  exact List.perm_middle

/-- Leaving out the first slot leaves the rest. -/
theorem without_head {value : β} (covers : Covers ((slot, value) :: listing) content?) :
    Listing.without ((slot, value) :: listing) slot = listing := by
  rw [Listing.without, List.filter_cons_of_neg (by simp)]
  exact without_eq_self (List.nodup_cons.mp covers.nodup).1

/-- Emptying a slot leaves it out of the listing. -/
theorem without (covers : listing.Covers content?)
    (emptied : ∀ other, changed? other = if other = slot then none else content? other) :
    (listing.without slot).Covers changed? where
  nodup := covers.nodup.sublist ((listing.without_sublist slot).map Prod.fst)
  mem_iff name value := by
    rw [mem_without, covers.mem_iff, emptied]
    split <;> simp_all

/-- Filling a vacant slot adds it to the listing. -/
theorem cons (covers : listing.Covers content?) {value : β} (vacant : content? slot = none)
    (filled : ∀ other, changed? other = if other = slot then some value else content? other) :
    Covers ((slot, value) :: listing) changed? where
  nodup := by
    rw [List.map_cons, List.nodup_cons, ← covers.isSome_iff, vacant]
    exact ⟨by simp, covers.nodup⟩
  mem_iff name held := by
    rw [List.mem_cons, covers.mem_iff, filled]
    split
    · next same => subst same; simp [vacant, eq_comm]
    · next apart => simp [apart]

/-- Filling a slot anew puts its new content into the listing instead of the old one. -/
theorem replace (covers : listing.Covers content?) {value : β}
    (filled : ∀ other, changed? other = if other = slot then some value else content? other) :
    Covers ((slot, value) :: listing.without slot) changed? := by
  have emptied : (listing.without slot).Covers fun other =>
      if other = slot then none else content? other := covers.without fun _ => rfl
  refine emptied.cons (if_pos rfl) fun other => ?_
  rw [filled]
  split <;> rfl

/-- Changing the content of a slot changes it in the listing. -/
theorem mapAt (covers : listing.Covers content?) {change : β → β}
    (changed : ∀ other,
      changed? other = if other = slot then (content? slot).map change else content? other) :
    (listing.mapAt slot change).Covers changed? where
  nodup := by rw [map_fst_mapAt]; exact covers.nodup
  mem_iff name value := by
    simp only [mem_mapAt, covers.mem_iff, changed]
    split
    · next same => rw [same, Option.map_eq_some_iff]
    · simp

end Covers

end Listing

end EvictionCache
