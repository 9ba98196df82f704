import EvictionCache.Sketch.CountMin
import Mathlib.Data.List.Nodup

/-!
# Cells of a sketch

The table of a sketch is flat: the counter of a row and a column stands at the place `row * width
+ column`. Depth and width are machine words, but since their product is one too, no place
overflows (`CountMinSketch.Sized`). A key has one column in each row, so its places are all
different, and adding to its count changes each of its counters once and no other.
-/
namespace EvictionCache

/-- A product that is let through is the product of the numbers. -/
theorem toNat_of_checkedProduct {left right product : UInt64}
    (checked : checkedProduct left right = some product) :
    product.toNat = left.toNat * right.toNat := by
  rw [checkedProduct] at checked
  split at checked
  · next fits =>
    obtain rfl := Option.some.inj checked
    have bounded : left.toNat * right.toNat < UInt64.size := by
      rcases fits with rfl | least
      · simp [UInt64.size]
      · have quotient : right.toNat ≤ (UInt64.size - 1) / left.toNat := by
          simpa using UInt64.le_iff_toNat_le.mp least
        have product := Nat.mul_le_mul_left left.toNat quotient
        have whole := Nat.mul_div_le (UInt64.size - 1) left.toNat
        have positive : 0 < UInt64.size := by decide
        omega
    rw [UInt64.toNat_mul, Nat.mod_eq_of_lt bounded]
  · cases checked

namespace SketchConfig

variable {config : SketchConfig} {count : UInt64}

/-- Dimensions are accepted when their product does not overflow, is not zero and is not too
large. -/
theorem counterCount_eq_ok_iff : config.counterCount = .ok count ↔
    checkedProduct config.depth config.width = some count ∧ 0 < count ∧
      count ≤ maxSketchCounters := by
  rw [counterCount]
  cases checkedProduct config.depth config.width with
  | none => simp
  | some product =>
    simp only [Bool.and_eq_true, decide_eq_true_eq, Option.some.injEq]
    split
    · next fits =>
      rw [Except.ok.injEq]
      constructor
      · rintro rfl
        exact ⟨rfl, fits⟩
      · exact fun accepted => accepted.1
    · next unfit =>
      refine iff_of_false (fun failed => nomatch failed) ?_
      rintro ⟨rfl, fits⟩
      exact unfit fits

/-- An accepted table has a counter for every row and column, and at least one. -/
theorem toNat_of_counterCount (accepted : config.counterCount = .ok count) :
    count.toNat = config.depth.toNat * config.width.toNat ∧ 0 < count.toNat := by
  obtain ⟨checked, positive, _⟩ := counterCount_eq_ok_iff.mp accepted
  exact ⟨toNat_of_checkedProduct checked, UInt64.lt_iff_toNat_lt.mp positive⟩

end SketchConfig

/-- As many seeds are drawn as asked for. -/
@[simp] theorem Mixer.length_seeds (state : UInt64) (count : Nat) :
    (Mixer.seeds state count).length = count := by
  induction count generalizing state with
  | zero => rfl
  | succ count ih => rw [Mixer.seeds, List.length_cons, ih]

/-- Changing a table at different places changes each of them once. -/
theorem getElem?_foldl_modify {α : Type} (change : α → α) {places : List Nat}
    (nodup : places.Nodup) (table : Array α) (place : Nat) :
    (places.foldl (fun table place => table.modify place change) table)[place]? =
      if place ∈ places then table[place]?.map change else table[place]? := by
  induction places generalizing table with
  | nil => rfl
  | cons first rest ih =>
    obtain ⟨fresh, nodup⟩ := List.nodup_cons.mp nodup
    rw [List.foldl_cons, ih nodup, Array.getElem?_modify]
    by_cases here : first = place
    · subst here
      simp [fresh]
    · simp [here, Ne.symm here]

/-- Changing a table keeps its size. -/
theorem size_foldl_modify {α : Type} (change : α → α) (places : List Nat) (table : Array α) :
    (places.foldl (fun table place => table.modify place change) table).size = table.size := by
  induction places generalizing table with
  | nil => rfl
  | cons first rest ih => rw [List.foldl_cons, ih, Array.size_modify]

/-- The places of a row come before those of the next. -/
theorem place_lt {width depth row column : Nat} (rowInside : row < depth)
    (columnInside : column < width) : row * width + column < depth * width := by
  have rows := Nat.mul_le_mul_right width (Nat.succ_le_of_lt rowInside)
  rw [Nat.succ_mul] at rows
  omega

/-- A place in a table tells its row and its column. -/
theorem row_column_inj {width row other column another : Nat} (inside : column < width)
    (within : another < width) (same : row * width + column = other * width + another) :
    row = other ∧ column = another := by
  have positive : 0 < width := Nat.zero_lt_of_lt inside
  have rows : ∀ row column, column < width → (row * width + column) / width = row := by
    intro row column inside
    rw [Nat.mul_comm, Nat.mul_add_div positive, Nat.div_eq_of_lt inside, Nat.add_zero]
  have equal : row = other := by
    rw [← rows row column inside, same, rows other another within]
  subst equal
  exact ⟨rfl, Nat.add_left_cancel same⟩

namespace CountMinSketch

variable {κ : Type} [HashInput κ]

/-- The column of a key in a row. -/
def column (sketch : CountMinSketch) (row : Nat) (key : κ) : Nat :=
  (Mixer.mix (sketch.builder.hash key ^^^ sketch.seeds.getD row 0) % sketch.width).toNat

/-- A sketch with a counter for every row and column, whose places are machine words. -/
structure Sized (sketch : CountMinSketch) : Prop where
  /-- There is a row. -/
  depth_pos : 0 < sketch.depth
  /-- There is a column. -/
  width_pos : 0 < sketch.width.toNat
  /-- Row after row fills the table. -/
  size_eq : sketch.counters.size = sketch.depth * sketch.width.toNat
  /-- No place overflows. -/
  addressable : sketch.depth * sketch.width.toNat < UInt64.size

/-- A sketch of accepted dimensions has as many rows as asked for. -/
@[simp] theorem depth_build (config : SketchConfig) (builder : HashBuilder) (count : UInt64) :
    (build config builder count).state.depth = config.depth.toNat := by
  simp [build, depth]

/-- A sketch of accepted dimensions has a counter for every row and column. -/
theorem sized_build {config : SketchConfig} {count : UInt64}
    (accepted : config.counterCount = .ok count) (builder : HashBuilder) :
    (build config builder count).state.Sized := by
  obtain ⟨product, positive⟩ := SketchConfig.toNat_of_counterCount accepted
  rw [product] at positive
  have bounded := count.toNat_lt_size
  rw [product] at bounded
  have size : (build config builder count).state.counters.size = count.toNat := by simp [build]
  refine ⟨?_, Nat.pos_of_mul_pos_left positive, ?_, ?_⟩
  · rw [depth_build]
    exact Nat.pos_of_mul_pos_right positive
  · rw [depth_build, size, product]
    rfl
  · rw [depth_build]
    exact bounded

/-- A place does not overflow if the table has a counter there. -/
theorem toNat_cell {width row : UInt64} (seed hash : UInt64) (positive : 0 < width.toNat)
    (inside : (row.toNat + 1) * width.toNat < UInt64.size) :
    (cell width row seed hash).toNat =
      row.toNat * width.toNat + (Mixer.mix (hash ^^^ seed) % width).toNat := by
  have column : (Mixer.mix (hash ^^^ seed) % width).toNat < width.toNat := by
    rw [UInt64.toNat_mod]
    exact Nat.mod_lt _ positive
  rw [Nat.succ_mul] at inside
  have start : (row * width).toNat = row.toNat * width.toNat := by
    rw [UInt64.toNat_mul, Nat.mod_eq_of_lt]
    change _ < UInt64.size
    omega
  rw [cell, UInt64.toNat_add, start, Nat.mod_eq_of_lt]
  change _ < UInt64.size
  omega

namespace Sized

variable {sketch : CountMinSketch} {row column : Nat}

/-- A column is within the width. -/
theorem column_lt (sized : sketch.Sized) (row : Nat) (key : κ) :
    sketch.column row key < sketch.width.toNat := by
  rw [CountMinSketch.column, UInt64.toNat_mod]
  exact Nat.mod_lt _ sized.width_pos

/-- A key has one place in each row, in its column there. -/
theorem cells_eq (sized : sketch.Sized) (key : κ) :
    sketch.cells (sketch.builder.hash key) =
      (List.range sketch.depth).map fun row =>
        row * sketch.width.toNat + sketch.column row key := by
  apply List.ext_getElem
  · simp [cells, depth]
  · intro row _ inside
    rw [List.length_map, List.length_range] at inside
    have product := Nat.mul_le_mul_right sketch.width.toNat (Nat.succ_le_of_lt inside)
    have bounded := sized.addressable
    have fits : row < UInt64.size := by
      have wide := Nat.le_mul_of_pos_right row sized.width_pos
      rw [Nat.succ_mul] at product
      omega
    have word : (UInt64.ofNat row).toNat = row := UInt64.toNat_ofNat_of_lt' fits
    have below : ((UInt64.ofNat row).toNat + 1) * sketch.width.toNat < UInt64.size := by
      rw [word]
      exact Nat.lt_of_le_of_lt product bounded
    have listed : row < sketch.seeds.size := inside
    have seed : sketch.seeds.getD row 0 = sketch.seeds[row] := by
      rw [Array.getD_eq_getD_getElem?, Array.getElem?_eq_getElem listed, Option.getD_some]
    simp only [cells, List.getElem_mapIdx, List.getElem_map, List.getElem_range,
      Array.getElem_toList]
    rw [toNat_cell _ _ sized.width_pos below, word, CountMinSketch.column, seed]

/-- Of the counters of a row a key has the one in its column. -/
theorem mem_cells_iff (sized : sketch.Sized) (key : κ) (rowInside : row < sketch.depth)
    (columnInside : column < sketch.width.toNat) :
    row * sketch.width.toNat + column ∈ sketch.cells (sketch.builder.hash key) ↔
      sketch.column row key = column := by
  rw [sized.cells_eq, List.mem_map]
  constructor
  · rintro ⟨other, _, same⟩
    obtain ⟨rfl, found⟩ := row_column_inj (sized.column_lt other key) columnInside same
    exact found
  · rintro rfl
    exact ⟨row, List.mem_range.mpr rowInside, rfl⟩

/-- The places of a key are all different. -/
theorem nodup_cells (sized : sketch.Sized) (key : κ) :
    (sketch.cells (sketch.builder.hash key)).Nodup := by
  rw [sized.cells_eq]
  refine List.nodup_range.map_on fun row _ other _ same => ?_
  exact (row_column_inj (sized.column_lt row key) (sized.column_lt other key) same).1

/-- Adding to the count of a key changes, in each row, the counter of its column. -/
theorem getElem?_incrementBy (sized : sketch.Sized) (key : κ) (count : UInt32)
    (rowInside : row < sketch.depth) (columnInside : column < sketch.width.toNat) :
    (sketch.incrementBy key count).counters[row * sketch.width.toNat + column]? =
      if sketch.column row key = column then
        sketch.counters[row * sketch.width.toNat + column]?.map (saturatingAdd · count)
      else sketch.counters[row * sketch.width.toNat + column]? := by
  rw [incrementBy, getElem?_foldl_modify _ (sized.nodup_cells key)]
  simp only [sized.mem_cells_iff key rowInside columnInside]

/-- Adding changes no size. -/
theorem incrementBy (sized : sketch.Sized) (key : κ) (count : UInt32) :
    (sketch.incrementBy key count).Sized :=
  { sized with
    size_eq := (size_foldl_modify _ _ sketch.counters).trans sized.size_eq }

/-- Clearing changes no size. -/
theorem clear (sized : sketch.Sized) : sketch.clear.state.Sized :=
  { sized with size_eq := Array.size_map.trans sized.size_eq }

end Sized

end CountMinSketch

end EvictionCache
