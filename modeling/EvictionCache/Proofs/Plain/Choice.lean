import EvictionCache.Plain.Cache

/-!
# What looking through all slots finds

Under every policy the slots of a plain cache are compared by two numbers, so no two slots
precede each other and precedence passes on. If the slots can be listed so that each precedes
all later ones, then the first of that list is what looking at each in turn finds, and the list
is what sorting gives.
-/
namespace EvictionCache

namespace PlainSlot

variable {policy : Policy} {κ ν : Type} {left middle right : PlainSlot κ ν}

/-- The first number decides, and the second if the first are equal. -/
theorem precedes_iff : left.precedes policy right = true ↔
    (left.priority policy).1 < (right.priority policy).1 ∨
      (left.priority policy).1 = (right.priority policy).1 ∧
        (left.priority policy).2 < (right.priority policy).2 := by
  simp [precedes]

/-- No two slots precede each other. -/
theorem precedes_asymm (before : left.precedes policy right = true) :
    ¬ right.precedes policy left = true := by
  rw [precedes_iff] at before ⊢
  omega

/-- Precedence passes on. -/
theorem precedes_trans (one : left.precedes policy middle = true)
    (two : middle.precedes policy right = true) : left.precedes policy right = true := by
  rw [precedes_iff] at one two ⊢
  omega

/-- Not being preceded passes on. -/
theorem not_precedes_trans (one : ¬ middle.precedes policy left = true)
    (two : ¬ right.precedes policy middle = true) : ¬ right.precedes policy left = true := by
  rw [precedes_iff] at one two ⊢
  omega

/-- Looking at slots in turn, from a first choice on, ends with one of them that none of them
precedes. -/
theorem foldl_choice (slots : List (PlainSlot κ ν)) (choice : PlainSlot κ ν) :
    ∃ final ∈ choice :: slots, slots.foldl
        (fun best slot =>
          match best with
          | none => some slot
          | some chosen => if slot.precedes policy chosen then some slot else some chosen)
        (some choice) = some final ∧
      ∀ slot ∈ choice :: slots, ¬ slot.precedes policy final = true := by
  induction slots generalizing choice with
  | nil =>
    refine ⟨choice, List.mem_cons_self, rfl, fun slot member => ?_⟩
    obtain rfl := List.mem_singleton.mp member
    exact fun before => precedes_asymm before before
  | cons next rest ih =>
    rw [List.foldl_cons]
    dsimp only
    split
    · next before =>
      obtain ⟨final, member, found, least⟩ := ih next
      refine ⟨final, List.mem_cons_of_mem _ member, found, fun slot present => ?_⟩
      rcases List.mem_cons.mp present with rfl | present
      -- The choice that was given up is compared with the final one by way of the new one.
      · exact not_precedes_trans (least next List.mem_cons_self) (precedes_asymm before)
      · exact least slot present
    · next later =>
      obtain ⟨final, member, found, least⟩ := ih choice
      refine ⟨final, ?_, found, fun slot present => ?_⟩
      · rcases List.mem_cons.mp member with rfl | member
        · exact List.mem_cons_self
        · exact List.mem_cons_of_mem _ (List.mem_cons_of_mem _ member)
      · rcases List.mem_cons.mp present with rfl | present
        · exact least slot List.mem_cons_self
        · rcases List.mem_cons.mp present with rfl | present
          · exact not_precedes_trans (least choice List.mem_cons_self) later
          · exact least slot (List.mem_cons_of_mem _ present)

/-- Looking at all slots finds the first of them in order. -/
theorem first?_eq_head? {slots sorted : List (PlainSlot κ ν)} (same : sorted.Perm slots)
    (order : sorted.Pairwise fun first second => first.precedes policy second = true) :
    first? policy slots = sorted.head? := by
  cases slots with
  | nil => rw [same.eq_nil]; rfl
  | cons choice rest =>
    have chosen : ∃ final ∈ choice :: rest, first? policy (choice :: rest) = some final ∧
        ∀ slot ∈ choice :: rest, ¬ slot.precedes policy final = true := foldl_choice rest choice
    obtain ⟨final, member, found, least⟩ := chosen
    rw [found]
    cases sorted with
    | nil => exact absurd same.nil_eq (List.cons_ne_nil _ _).symm
    | cons first others =>
      rcases List.mem_cons.mp (same.mem_iff.mpr member) with rfl | later
      · rfl
      · have before := (List.pairwise_cons.mp order).1 final later
        exact absurd before (least first (same.mem_iff.mp List.mem_cons_self))

end PlainSlot

namespace PlainCache

variable {policy : Policy} {κ ν : Type}

/-- Sorting gives the slots in order. -/
theorem ordered_eq {cache : PlainCache policy κ ν} {sorted : List (PlainSlot κ ν)}
    (same : sorted.Perm cache.slots)
    (order : sorted.Pairwise fun first second => first.precedes policy second = true) :
    cache.ordered = sorted := by
  have merged : cache.ordered.Pairwise fun first second =>
      (!second.precedes policy first) = true := by
    apply List.pairwise_mergeSort
    · intro left middle right one two
      simp only [Bool.not_eq_true', ← Bool.not_eq_true] at one two ⊢
      exact PlainSlot.not_precedes_trans one two
    · intro left right
      by_cases before : left.precedes policy right = true
      · simp [PlainSlot.precedes_asymm before]
      · simp [before]
  have compared := List.Pairwise.forall_of_forall_of_flip
    (R := fun first second => first = second ∨ first.precedes policy second = true ∨
      second.precedes policy first = true)
    (fun _ _ => .inl rfl) (order.imp fun before => .inr (.inl before))
    (order.imp fun before => .inr (.inr before))
  have perm : cache.ordered.Perm sorted := (List.mergeSort_perm _ _).trans same.symm
  refine List.Perm.eq_of_pairwise ?_ merged
    (order.imp fun before => by simp [PlainSlot.precedes_asymm before]) perm
  intro first second listed member later earlier
  rcases compared (perm.mem_iff.mp listed) member with rfl | before | before
  · rfl
  · simp [before] at earlier
  · simp [before] at later

end PlainCache

end EvictionCache
