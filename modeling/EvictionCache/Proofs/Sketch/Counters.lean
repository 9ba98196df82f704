import EvictionCache.Proofs.Sketch.Additions
import EvictionCache.Proofs.Sketch.Cells

/-!
# Counters and estimates of a sketch

A counter holds what was added since the last clear to the keys of its column, as far as a
counter goes (`CountMinSketch.Tallies`): sums that are cut off after every addition are the sum
cut off at the end. Everything about estimates follows. The column of a key holds at least the
count of the key, and exactly that if no other key was added there; and since the counters
depend on sums only, neither the order of additions nor how a count was divided shows in them.
-/
namespace EvictionCache

/-- A saturating sum is the sum, cut off at the greatest counter. -/
theorem toNat_saturatingAdd (left right : UInt32) :
    (saturatingAdd left right).toNat = min (left.toNat + right.toNat) maxCounter := by
  have word : min (left.toNat + right.toNat) maxCounter < UInt32.size :=
    Nat.lt_of_le_of_lt (Nat.min_le_right _ _) (by decide)
  exact UInt32.toNat_ofNat_of_lt' word

namespace CountMinSketch

variable {κ : Type} [HashInput κ]

section Shape

/-- A call changes counters only. -/
theorem exists_counters_perform (sketch : CountMinSketch) (call : SketchCall κ) :
    ∃ counters, sketch.perform call = { sketch with counters } := by
  cases call <;> exact ⟨_, rfl⟩

/-- A run changes counters only. -/
theorem exists_counters_run (sketch : CountMinSketch) (calls : List (SketchCall κ)) :
    ∃ counters, sketch.run calls = { sketch with counters } := by
  induction calls generalizing sketch with
  | nil => exact ⟨sketch.counters, rfl⟩
  | cons call rest ih =>
    obtain ⟨counters, changed⟩ := sketch.exists_counters_perform call
    obtain ⟨after, run⟩ := ih (sketch.perform call)
    refine ⟨after, run.trans ?_⟩
    rw [changed]

/-- The last call of a run is carried out after the others. -/
theorem run_concat (sketch : CountMinSketch) (calls : List (SketchCall κ))
    (call : SketchCall κ) : sketch.run (calls ++ [call]) = (sketch.run calls).perform call := by
  simp [run]

end Shape

/-- What was added to the keys of a column, cut off at the greatest counter. -/
def saturatedSum (sketch : CountMinSketch) (added : Additions κ) (row column : Nat) : Nat :=
  min (added.total fun key => sketch.column row key == column) maxCounter

/-- Adding to a sum that is cut off, and cutting off again, is cutting off once. -/
theorem saturatedSum_concat (sketch : CountMinSketch) (added : Additions κ) (key : κ)
    (count row column : Nat) :
    sketch.saturatedSum (added ++ [(key, count)]) row column =
      if sketch.column row key = column then
        min (sketch.saturatedSum added row column + count) maxCounter
      else sketch.saturatedSum added row column := by
  rw [saturatedSum, saturatedSum, Additions.total_append, Additions.total_cons,
    Additions.total_nil]
  simp only [beq_iff_eq]
  split <;> omega

/-- More additions leave no smaller sum. -/
theorem saturatedSum_le_append (sketch : CountMinSketch) (added more : Additions κ)
    (row column : Nat) :
    sketch.saturatedSum added row column ≤ sketch.saturatedSum (added ++ more) row column := by
  rw [saturatedSum, saturatedSum, Additions.total_append]
  omega

/-- Equal keys have the same columns. -/
theorem column_eq_of_beq [BEq κ]
    (respects : ∀ one other : κ, (one == other) = true →
      HashInput.bytes one = HashInput.bytes other)
    (sketch : CountMinSketch) (row : Nat) {one other : κ} (same : (one == other) = true) :
    sketch.column row one = sketch.column row other := by
  rw [column, column, HashBuilder.hash, HashBuilder.hash, respects one other same]

/-- A sketch whose counters hold what was added to the keys of their columns. -/
structure Tallies (sketch : CountMinSketch) (added : Additions κ) : Prop where
  /-- The table has a counter for every row and column. -/
  sized : sketch.Sized
  /-- It holds the sum over the keys of the column, cut off. -/
  counter_eq : ∀ row < sketch.depth, ∀ column < sketch.width.toNat,
    sketch.counters[row * sketch.width.toNat + column]?.map UInt32.toNat =
      some (sketch.saturatedSum added row column)

/-- In a new sketch nothing was added. -/
theorem tallies_build {config : SketchConfig} {count : UInt64}
    (accepted : config.counterCount = .ok count) (builder : HashBuilder) :
    (build config builder count).state.Tallies ([] : Additions κ) where
  sized := sized_build accepted builder
  counter_eq row rowInside column columnInside := by
    have sized := sized_build accepted builder
    have place := place_lt rowInside columnInside
    rw [← sized.size_eq] at place
    rw [Array.getElem?_eq_getElem place]
    simp [build, saturatedSum]

namespace Tallies

variable {sketch : CountMinSketch} {added : Additions κ}

/-- Adding to the count of a key. -/
theorem incrementBy (tallies : sketch.Tallies added) (key : κ) (count : UInt32) :
    (sketch.incrementBy key count).Tallies (added ++ [(key, count.toNat)]) where
  sized := tallies.sized.incrementBy key count
  counter_eq row rowInside column columnInside := by
    have before := tallies.counter_eq row rowInside column columnInside
    have after := tallies.sized.getElem?_incrementBy key count rowInside columnInside
    change ((sketch.incrementBy key count).counters[row * sketch.width.toNat + column]?).map _ =
      some (sketch.saturatedSum (added ++ [(key, count.toNat)]) row column)
    rw [after, saturatedSum_concat]
    split
    · obtain ⟨counter, found, value⟩ := Option.map_eq_some_iff.mp before
      rw [found, ← value, ← toNat_saturatingAdd]
      rfl
    · exact before

/-- Clearing undoes everything that was added. -/
theorem clear (tallies : sketch.Tallies added) :
    sketch.clear.state.Tallies ([] : Additions κ) where
  sized := tallies.sized.clear
  counter_eq row rowInside column columnInside := by
    have before := tallies.counter_eq row rowInside column columnInside
    obtain ⟨counter, found, _⟩ := Option.map_eq_some_iff.mp before
    change ((sketch.counters.map fun _ => 0)[row * sketch.width.toNat + column]?).map _ = _
    rw [Array.getElem?_map, found]
    simp [saturatedSum]

/-- A call adds to what was added, or clears it. -/
theorem perform {calls : List (SketchCall κ)}
    (tallies : sketch.Tallies (SketchCall.additions calls)) (call : SketchCall κ) :
    (sketch.perform call).Tallies (SketchCall.additions (calls ++ [call])) := by
  rw [SketchCall.additions_concat]
  cases call with
  | increment key => exact tallies.incrementBy key 1
  | incrementBy key count => exact tallies.incrementBy key count
  | clear => exact tallies.clear

/-- After a run the counters hold what was added since the last clear. -/
theorem run (tallies : sketch.Tallies ([] : Additions κ)) (calls : List (SketchCall κ)) :
    (sketch.run calls).Tallies (SketchCall.additions calls) := by
  induction calls using List.reverseRecOn with
  | nil => exact tallies
  | append_singleton rest call ih =>
    rw [run_concat]
    exact ih.perform call

/-- The estimate of a key is the least of the sums of its columns. -/
theorem min?_eq (tallies : sketch.Tallies added) (key : κ) :
    ((List.range sketch.depth).map fun row =>
      sketch.saturatedSum added row (sketch.column row key)).min? =
        some (sketch.estimate key).toNat := by
  have counter : ∀ row < sketch.depth,
      (sketch.counters.getD (row * sketch.width.toNat + sketch.column row key) 0).toNat =
        sketch.saturatedSum added row (sketch.column row key) := by
    intro row inside
    have held := tallies.counter_eq row inside _ (tallies.sized.column_lt row key)
    obtain ⟨counter, found, value⟩ := Option.map_eq_some_iff.mp held
    rw [Array.getD_eq_getD_getElem?, found, Option.getD_some, value]
  have estimate : sketch.estimate key = (((List.range sketch.depth).map fun row =>
      sketch.counters.getD (row * sketch.width.toNat + sketch.column row key) 0).min?).getD 0 := by
    rw [CountMinSketch.estimate, tallies.sized.cells_eq, List.map_map]
    rfl
  cases found : ((List.range sketch.depth).map fun row =>
      sketch.counters.getD (row * sketch.width.toNat + sketch.column row key) 0).min? with
  | none =>
    rw [List.min?_eq_none_iff, List.map_eq_nil_iff, List.range_eq_nil] at found
    exact absurd found (Nat.ne_of_gt tallies.sized.depth_pos)
  | some least =>
    rw [estimate, found, Option.getD_some]
    rw [List.min?_eq_some_iff] at found ⊢
    obtain ⟨member, below⟩ := found
    constructor
    · obtain ⟨row, inside, rfl⟩ := List.mem_map.mp member
      exact List.mem_map.mpr ⟨row, inside, (counter row (List.mem_range.mp inside)).symm⟩
    · intro sum here
      obtain ⟨row, inside, rfl⟩ := List.mem_map.mp here
      have least := below _ (List.mem_map_of_mem inside)
      rw [← counter row (List.mem_range.mp inside)]
      exact UInt32.le_iff_toNat_le.mp least

/-- Some row has the estimate of a key as its sum. -/
theorem exists_row (tallies : sketch.Tallies added) (key : κ) :
    ∃ row < sketch.depth,
      sketch.saturatedSum added row (sketch.column row key) = (sketch.estimate key).toNat := by
  obtain ⟨row, inside, same⟩ :=
    List.mem_map.mp (List.min?_eq_some_iff.mp (tallies.min?_eq key)).1
  exact ⟨row, List.mem_range.mp inside, same⟩

/-- No row has a smaller sum than the estimate of a key. -/
theorem estimate_le (tallies : sketch.Tallies added) (key : κ) {row : Nat}
    (inside : row < sketch.depth) :
    (sketch.estimate key).toNat ≤ sketch.saturatedSum added row (sketch.column row key) :=
  (List.min?_eq_some_iff.mp (tallies.min?_eq key)).2 _
    (List.mem_map_of_mem (List.mem_range.mpr inside))

/-- More additions leave no smaller estimate. -/
theorem estimate_le_append {counters : Array UInt32} {more : Additions κ}
    (tallies : sketch.Tallies added) (later : Tallies { sketch with counters } (added ++ more))
    (key : κ) : sketch.estimate key ≤ estimate { sketch with counters } key := by
  obtain ⟨row, inside, same⟩ := later.exists_row key
  rw [UInt32.le_iff_toNat_le, ← same]
  exact (tallies.estimate_le key inside).trans (sketch.saturatedSum_le_append added more row _)

/-- Sketches that differ in their counters at most are the same if every column has the same
sum. -/
theorem eq_of_total {counters : Array UInt32} {more : Additions κ}
    (tallies : sketch.Tallies added) (others : Tallies { sketch with counters } more)
    (same : ∀ row column, (added.total fun key => sketch.column row key == column) =
      more.total fun key => sketch.column row key == column) :
    sketch = { sketch with counters } := by
  have equal : sketch.counters = counters := by
    have sizes : sketch.counters.size = counters.size :=
      tallies.sized.size_eq.trans others.sized.size_eq.symm
    apply Array.ext_getElem?
    intro place
    by_cases inside : place < sketch.counters.size
    · have positive := tallies.sized.width_pos
      rw [tallies.sized.size_eq, Nat.mul_comm] at inside
      have rowInside := Nat.div_lt_of_lt_mul inside
      have columnInside := Nat.mod_lt place positive
      have left := tallies.counter_eq _ rowInside _ columnInside
      have right := others.counter_eq _ rowInside _ columnInside
      rw [saturatedSum, same] at left
      rw [Nat.div_add_mod'] at left
      change counters[place / sketch.width.toNat * sketch.width.toNat +
        place % sketch.width.toNat]?.map _ = _ at right
      rw [Nat.div_add_mod'] at right
      have words : Function.Injective (Option.map UInt32.toNat) :=
        Option.map_injective fun _ _ => UInt32.toNat_inj.mp
      exact words (left.trans right.symm)
    · have beyond := Nat.le_of_not_lt inside
      rw [Array.getElem?_eq_none beyond, Array.getElem?_eq_none (sizes ▸ beyond)]
  rw [← equal]

/-- Runs that add the same to every column end alike. -/
theorem run_eq_of_total (tallies : sketch.Tallies ([] : Additions κ))
    {calls others : List (SketchCall κ)}
    (same : ∀ row column,
      ((SketchCall.additions calls).total fun key => sketch.column row key == column) =
        (SketchCall.additions others).total fun key => sketch.column row key == column) :
    sketch.run calls = sketch.run others := by
  obtain ⟨counters, changed⟩ := sketch.exists_counters_run calls
  obtain ⟨table, another⟩ := sketch.exists_counters_run others
  have left := tallies.run calls
  have right := tallies.run others
  rw [changed] at left
  rw [another] at right
  rw [changed, another]
  exact left.eq_of_total right same

section Spellings

variable [BEq κ]
  (respects : ∀ one other : κ, (one == other) = true →
    HashInput.bytes one = HashInput.bytes other)

include respects

/-- The estimate of a key is at least its count, as far as a counter goes. -/
theorem count_le_estimate (tallies : sketch.Tallies added) (key : κ) :
    min (added.total (· == key)) maxCounter ≤ (sketch.estimate key).toNat := by
  obtain ⟨row, _, same⟩ := tallies.exists_row key
  have within : added.total (· == key) ≤
      added.total fun other => sketch.column row other == sketch.column row key :=
    Additions.total_le_total fun addition _ spelt =>
      beq_iff_eq.mpr (column_eq_of_beq respects sketch row spelt)
  rw [← same, saturatedSum]
  omega

/-- The estimate of a key is its count, as far as a counter goes, if in some row nothing was
added to another key of its column. -/
theorem estimate_eq_count (tallies : sketch.Tallies added) (key : κ) {row : Nat}
    (inside : row < sketch.depth)
    (alone : ∀ addition ∈ added, sketch.column row addition.1 = sketch.column row key →
      (addition.1 == key) = true) :
    (sketch.estimate key).toNat = min (added.total (· == key)) maxCounter := by
  have least := tallies.count_le_estimate respects key
  have greatest := tallies.estimate_le key inside
  have same : (added.total fun other => sketch.column row other == sketch.column row key) =
      added.total (· == key) := by
    apply Additions.total_congr
    intro addition member
    by_cases spelt : (addition.1 == key) = true
    · rw [spelt, column_eq_of_beq respects sketch row spelt, BEq.rfl]
    · have apart := fun shared => spelt (alone addition member shared)
      rw [Bool.eq_false_iff.mpr spelt, beq_eq_false_iff_ne]
      exact apart
  rw [saturatedSum, same] at greatest
  exact Nat.le_antisymm greatest least

end Spellings

end Tallies

/-- From a new sketch of any accepted dimensions and with any hash functions of its rows, every
run leaves in every counter what was added since the last clear to the keys of its column, cut
off at the greatest counter, and the estimate of a key is the least of its counters. So it is
never less than the count of the key, and equal to it if the key is alone in one of its columns;
it never decreases between clears; and it depends neither on the order of calls nor on how the
count of a key was divided among them. -/
theorem run_build_saturates [BEq κ] [EquivBEq κ] {config : SketchConfig} {count : UInt64}
    (accepted : config.counterCount = .ok count)
    (respects : ∀ one other : κ, (one == other) = true →
      HashInput.bytes one = HashInput.bytes other)
    (builder : HashBuilder) (calls : List (SketchCall κ)) :
    let fresh := (build config builder count).state
    let sketch := fresh.run calls
    let added := SketchCall.additions calls
    (∀ row < config.depth.toNat, ∀ column < config.width.toNat,
      sketch.counters[row * config.width.toNat + column]?.map UInt32.toNat =
        some (min (added.total fun key => fresh.column row key == column) maxCounter)) ∧
    (∀ key : κ, ((List.range config.depth.toNat).map fun row =>
      min (added.total fun other => fresh.column row other == fresh.column row key)
        maxCounter).min? = some (sketch.estimate key).toNat) ∧
    (∀ key : κ, min (added.total (· == key)) maxCounter ≤ (sketch.estimate key).toNat) ∧
    (∀ key : κ, ∀ row < config.depth.toNat,
      (∀ addition ∈ added, fresh.column row addition.1 = fresh.column row key →
        (addition.1 == key) = true) →
      (sketch.estimate key).toNat = min (added.total (· == key)) maxCounter) ∧
    (∀ more : List (SketchCall κ), (∀ call ∈ more, call.adds = true) → ∀ key : κ,
      sketch.estimate key ≤ (fresh.run (calls ++ more)).estimate key) ∧
    ∀ more others after : List (SketchCall κ), (∀ call ∈ more ++ others, call.adds = true) →
      (more.Perm others ∨ ∀ key, (SketchCall.additions more).total (· == key) =
        (SketchCall.additions others).total (· == key)) →
      fresh.run (calls ++ more ++ after) = fresh.run (calls ++ others ++ after) := by
  intro fresh sketch added
  have start : fresh.Tallies ([] : Additions κ) := tallies_build accepted builder
  have depth : fresh.depth = config.depth.toNat := depth_build config builder count
  have tallies : sketch.Tallies added := start.run calls
  obtain ⟨counters, changed⟩ : ∃ counters, sketch = { fresh with counters } :=
    fresh.exists_counters_run calls
  rw [← depth]
  rw [changed] at tallies
  simp only [changed]
  refine ⟨tallies.counter_eq, tallies.min?_eq, tallies.count_le_estimate respects,
    fun key row inside alone => tallies.estimate_eq_count respects key inside alone, ?_, ?_⟩
  · intro more adding key
    obtain ⟨table, grown⟩ := fresh.exists_counters_run (calls ++ more)
    have later := start.run (calls ++ more)
    rw [SketchCall.additions_append calls adding, grown] at later
    rw [grown]
    exact tallies.estimate_le_append later key
  · intro more others after adding same
    have first : ∀ call ∈ more, call.adds = true := fun call here =>
      adding call (List.mem_append_left _ here)
    have second : ∀ call ∈ others, call.adds = true := fun call here =>
      adding call (List.mem_append_right _ here)
    refine start.run_eq_of_total fun row column => ?_
    apply SketchCall.total_additions_append
    rw [SketchCall.additions_append calls first, SketchCall.additions_append calls second,
      Additions.total_append, Additions.total_append]
    congr 1
    rcases same with reordered | sums
    · exact Additions.total_perm (reordered.filterMap _) _
    · rw [SketchCall.additions_eq_filterMap first, SketchCall.additions_eq_filterMap second] at sums
      refine Additions.total_eq_of_keys sums fun one other spelt => ?_
      rw [column_eq_of_beq respects fresh row spelt]

/-- After a clear a key that was counted beyond the limit is estimated at the limit, and one that
was counted once at one, whatever it was counted before. -/
theorem run_build_saturates_seeded :
    let config : SketchConfig := ⟨2, 8, some 7⟩
    let calls : List (SketchCall UInt64) :=
      [.incrementBy 2 9, .clear, .incrementBy 1 4294967290, .increment 2, .incrementBy 1 10]
    let sketch := (build config .fnv 16).state.run calls
    config.counterCount = .ok 16 ∧
      (∀ one other : UInt64, (one == other) = true →
        HashInput.bytes one = HashInput.bytes other) ∧
      (sketch.estimate (1 : UInt64)).toNat = 4294967295 ∧
      (sketch.estimate (2 : UInt64)).toNat = 1 := by
  intro config calls sketch
  have accepted : config.counterCount = .ok 16 :=
    SketchConfig.counterCount_eq_ok_iff.mpr (by decide)
  have respects : ∀ one other : UInt64, (one == other) = true →
      HashInput.bytes one = HashInput.bytes other := fun one other same => by
    rw [eq_of_beq same]
  obtain ⟨_, _, _, counted, _⟩ := run_build_saturates accepted respects .fnv calls
  have first := counted 1 0 (by decide) (by decide +kernel)
  have second := counted 2 0 (by decide) (by decide +kernel)
  exact ⟨accepted, respects, first.trans (by decide +kernel), second.trans (by decide +kernel)⟩

end CountMinSketch

end EvictionCache
