import EvictionCache.Sketch.Call
import Mathlib.Data.List.DropRight

/-!
# What calls add up to

After a run of a sketch only what was added since the last clear counts
(`SketchCall.additions`). Added counts are summed up over the keys that fit
(`Additions.total`): those equal to a given key, or those that share a counter. The sums over
the spellings of each single key decide the sums over all sets that hold with a key all its
spellings.
-/
namespace EvictionCache

/-- Keys with the counts that were added to them. -/
abbrev Additions (κ : Type) := List (κ × Nat)

namespace Additions

variable {κ : Type} {added more : Additions κ} {fits others : κ → Bool}

/-- The sum of the counts added to keys that fit. -/
def total : Additions κ → (κ → Bool) → Nat
  | [], _ => 0
  | addition :: rest, fits => (if fits addition.1 then addition.2 else 0) + total rest fits

@[simp] theorem total_nil (fits : κ → Bool) : total [] fits = 0 := rfl

@[simp] theorem total_cons (addition : κ × Nat) (added : Additions κ) (fits : κ → Bool) :
    total (addition :: added) fits =
      (if fits addition.1 then addition.2 else 0) + added.total fits := rfl

@[simp] theorem total_append (added more : Additions κ) (fits : κ → Bool) :
    total (added ++ more) fits = added.total fits + more.total fits := by
  induction added with
  | nil => simp
  | cons addition rest ih =>
    rw [List.cons_append, total_cons, total_cons, ih, Nat.add_assoc]

/-- If no key fits there is nothing to sum up. -/
@[simp] theorem total_false (added : Additions κ) : (added.total fun _ => false) = 0 := by
  induction added with
  | nil => rfl
  | cons addition rest ih => rw [total_cons, ih]; rfl

/-- The order of additions is free. -/
theorem total_perm (same : added.Perm more) (fits : κ → Bool) :
    added.total fits = more.total fits := by
  induction same with
  | nil => rfl
  | cons addition _ ih => rw [total_cons, total_cons, ih]
  | swap first second rest =>
    simp only [total_cons]
    omega
  | trans _ _ first second => exact first.trans second

/-- More keys have no smaller sum. -/
theorem total_le_total
    (within : ∀ addition ∈ added, fits addition.1 = true → others addition.1 = true) :
    added.total fits ≤ added.total others := by
  induction added with
  | nil => exact Nat.le_refl _
  | cons addition rest ih =>
    have wider := within addition List.mem_cons_self
    have tail := ih fun other here => within other (List.mem_cons_of_mem _ here)
    rw [total_cons, total_cons]
    split
    · next here =>
      rw [if_pos (wider here)]
      omega
    · omega

/-- Only the keys that occur decide the sum. -/
theorem total_congr (same : ∀ addition ∈ added, fits addition.1 = others addition.1) :
    added.total fits = added.total others :=
  Nat.le_antisymm (total_le_total fun addition here fit => same addition here ▸ fit)
    (total_le_total fun addition here fit => (same addition here).symm ▸ fit)

/-- A sum splits into those over two parts of the keys. -/
theorem total_split (added : Additions κ) (fits part : κ → Bool) :
    added.total fits =
      added.total (fun key => fits key && part key) +
        added.total fun key => fits key && !part key := by
  induction added with
  | nil => rfl
  | cons addition rest ih =>
    simp only [total_cons, ih]
    cases fits addition.1 <;> cases part addition.1 <;> simp <;> omega

section Spellings

variable [BEq κ]

/-- The spellings of a key that fit are all of them or none. -/
theorem total_spellings (added : Additions κ)
    (respects : ∀ one other, (one == other) = true → fits one = fits other) (key : κ) :
    (added.total fun other => fits other && other == key) =
      if fits key then added.total (· == key) else 0 := by
  have alike : (added.total fun other => fits other && other == key) =
      added.total fun other => fits key && other == key := by
    apply total_congr
    intro addition _
    by_cases same : (addition.1 == key) = true
    · rw [respects addition.1 key same]
    · simp [same]
  rw [alike]
  cases fits key <;> simp

variable [EquivBEq κ]

/-- Equal sums for each single key give equal sums for sets of keys that hold with a key all its
spellings, when finitely many keys cover what occurs. -/
theorem total_eq_of_covered (keys : List κ)
    (same : ∀ key, added.total (· == key) = more.total (· == key))
    (respects : ∀ one other, (one == other) = true → fits one = fits other)
    (covered : ∀ addition ∈ added ++ more, fits addition.1 = true →
      ∃ key ∈ keys, (addition.1 == key) = true) : added.total fits = more.total fits := by
  induction keys generalizing fits with
  | nil =>
    have nothing : ∀ addition ∈ added ++ more, fits addition.1 = false := by
      intro addition member
      by_contra fit
      obtain ⟨_, impossible, _⟩ := covered addition member (Bool.not_eq_false _ ▸ fit)
      cases impossible
    have left : added.total fits = added.total fun _ => false :=
      total_congr fun addition here => nothing addition (List.mem_append_left _ here)
    have right : more.total fits = more.total fun _ => false :=
      total_congr fun addition here => nothing addition (List.mem_append_right _ here)
    rw [left, right, total_false, total_false]
  | cons key rest ih =>
    have others : added.total (fun other => fits other && !other == key) =
        more.total fun other => fits other && !other == key := by
      refine ih (fun one other spelt => ?_) fun addition member fit => ?_
      · rw [respects one other spelt, BEq.congr_left spelt]
      · rw [Bool.and_eq_true, Bool.not_eq_true'] at fit
        obtain ⟨sought, here, alike⟩ := covered addition member fit.1
        rcases List.mem_cons.mp here with rfl | here
        · rw [alike] at fit
          cases fit.2
        · exact ⟨sought, here, alike⟩
    rw [added.total_split fits (· == key), more.total_split fits (· == key),
      total_spellings added respects key, total_spellings more respects key, same key, others]

/-- Equal sums for each single key give equal sums for sets of keys that hold with a key all its
spellings. -/
theorem total_eq_of_keys (same : ∀ key, added.total (· == key) = more.total (· == key))
    (respects : ∀ one other, (one == other) = true → fits one = fits other) :
    added.total fits = more.total fits :=
  total_eq_of_covered ((added ++ more).map Prod.fst) same respects fun _ member _ =>
    ⟨_, List.mem_map_of_mem member, BEq.rfl⟩

end Spellings

end Additions

namespace SketchCall

variable {κ : Type}

/-- What a call adds to which key; clearing adds nothing. -/
def addition? : SketchCall κ → Option (κ × Nat)
  | increment key => some (key, 1)
  | incrementBy key count => some (key, count.toNat)
  | clear => none

/-- Whether a call adds to a key. -/
def adds (call : SketchCall κ) : Bool := call.addition?.isSome

/-- What calls added since the last of them that cleared. -/
def additions (calls : List (SketchCall κ)) : Additions κ :=
  (calls.rtakeWhile adds).filterMap addition?

/-- A call that adds comes on top of what was added, and one that clears undoes it. -/
theorem additions_concat (calls : List (SketchCall κ)) (call : SketchCall κ) :
    additions (calls ++ [call]) =
      match call.addition? with
      | some addition => additions calls ++ [addition]
      | none => [] := by
  rw [additions]
  split
  · next addition found =>
    have more : call.adds = true := by rw [adds, found, Option.isSome_some]
    rw [List.rtakeWhile_concat_pos _ _ _ more, List.filterMap_append]
    simp [found, additions]
  · next clears =>
    have cleared : ¬ call.adds = true := by simp [adds, clears]
    rw [List.rtakeWhile_concat_neg _ _ _ cleared]
    rfl

/-- Without a clear everything comes on top of what was added before. -/
theorem additions_append (calls : List (SketchCall κ)) {more : List (SketchCall κ)}
    (adding : ∀ call ∈ more, call.adds = true) :
    additions (calls ++ more) = additions calls ++ more.filterMap addition? := by
  induction more using List.reverseRecOn with
  | nil => simp
  | append_singleton rest call ih =>
    have last : call.adds = true := adding call (by simp)
    obtain ⟨addition, found⟩ := Option.isSome_iff_exists.mp last
    have before := ih fun other here => adding other (List.mem_append_left _ here)
    rw [← List.append_assoc, additions_concat, found, before]
    simp [found]

/-- Without a clear all that was added is what the calls add. -/
theorem additions_eq_filterMap {calls : List (SketchCall κ)}
    (adding : ∀ call ∈ calls, call.adds = true) :
    additions calls = calls.filterMap addition? :=
  additions_append [] adding

/-- What follows adds the same to equal sums, or undoes both. -/
theorem total_additions_append {calls others : List (SketchCall κ)} {fits : κ → Bool}
    (same : (additions calls).total fits = (additions others).total fits)
    (after : List (SketchCall κ)) :
    (additions (calls ++ after)).total fits = (additions (others ++ after)).total fits := by
  induction after using List.reverseRecOn with
  | nil => simpa using same
  | append_singleton rest call ih =>
    rw [← List.append_assoc, ← List.append_assoc, additions_concat, additions_concat]
    cases call.addition? with
    | none => rfl
    | some addition => simp [ih]

end SketchCall

end EvictionCache
