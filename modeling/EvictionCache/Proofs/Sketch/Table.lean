import EvictionCache.Proofs.Sketch.Rows

/-!
# Dimensions and places of a table

Dimensions are accepted exactly when their product, taken as a number, is neither zero nor too
large (`SketchConfig.counterCount_eq_ok_iff_product`). An accepted table has a counter for every
place that a row and a hash can name, the places are computed without overflow, and each row has
a segment of the table for itself (`CountMinSketch.Addressed`).
-/
namespace EvictionCache

/-- A product is let through exactly when it is a word. -/
theorem checkedProduct_eq_some_iff {left right product : UInt64} :
    checkedProduct left right = some product ↔
      left.toNat * right.toNat < UInt64.size ∧ product.toNat = left.toNat * right.toNat := by
  constructor
  · intro checked
    have value := toNat_of_checkedProduct checked
    exact ⟨value ▸ product.toNat_lt_size, value⟩
  · rintro ⟨bounded, value⟩
    have fits : left = 0 ∨ right ≤ 0xFFFFFFFFFFFFFFFF / left := by
      by_cases zero : left = 0
      · exact .inl zero
      · have positive : 0 < left.toNat := by
          apply Nat.pos_of_ne_zero
          intro same
          exact zero (UInt64.toNat_inj.mp same)
        have greatest : right.toNat * left.toNat ≤ UInt64.size - 1 := by
          rw [Nat.mul_comm]
          omega
        have quotient : right.toNat ≤ (UInt64.size - 1) / left.toNat :=
          (Nat.le_div_iff_mul_le positive).mpr greatest
        refine .inr (UInt64.le_iff_toNat_le.mpr ?_)
        rw [UInt64.toNat_div]
        exact quotient
    have exact : left * right = product := by
      apply UInt64.toNat_inj.mp
      rw [UInt64.toNat_mul, value]
      exact Nat.mod_eq_of_lt bounded
    rw [checkedProduct, if_pos fits, exact]

namespace SketchConfig

variable {config : SketchConfig} {count : UInt64}

/-- The number of counters that dimensions call for. -/
def product (config : SketchConfig) : Nat := config.depth.toNat * config.width.toNat

/-- A table has as many counters as dimensions call for, if there are any and not too many. -/
theorem counterCount_eq_ok_iff_product : config.counterCount = .ok count ↔
    (0 < config.product ∧ config.product ≤ (2 ^ 63 - 1) / 8) ∧ count.toNat = config.product := by
  have greatest : maxSketchCounters.toNat = (2 ^ 63 - 1) / 8 := by decide
  rw [counterCount_eq_ok_iff, checkedProduct_eq_some_iff, UInt64.lt_iff_toNat_lt,
    UInt64.le_iff_toNat_le, greatest, product]
  constructor
  · rintro ⟨⟨_, value⟩, positive, small⟩
    rw [value] at positive small
    exact ⟨⟨positive, small⟩, value⟩
  · rintro ⟨⟨positive, small⟩, value⟩
    rw [value]
    exact ⟨⟨Nat.lt_of_le_of_lt small (by decide), rfl⟩, positive, small⟩

/-- Dimensions that are not accepted are reported as they were given. -/
theorem counterCount_eq_error_iff {rejection : ConfigError} :
    config.counterCount = .error rejection ↔
      ¬(0 < config.product ∧ config.product ≤ (2 ^ 63 - 1) / 8) ∧
        rejection = .invalidSketchDimensions config.depth config.width := by
  have reported : ∀ {failure}, config.counterCount = .error failure →
      failure = config.rejection := by
    intro failure failed
    rw [counterCount] at failed
    split at failed
    · split at failed
      · cases failed
      · exact (Except.error.inj failed).symm
    · exact (Except.error.inj failed).symm
  constructor
  · intro failed
    refine ⟨fun fits => ?_, reported failed⟩
    have word : (UInt64.ofNat config.product).toNat = config.product :=
      UInt64.toNat_ofNat_of_lt' (Nat.lt_of_le_of_lt fits.2 (by decide))
    have accepted := counterCount_eq_ok_iff_product.mpr ⟨fits, word⟩
    rw [failed] at accepted
    cases accepted
  · rintro ⟨unfit, rfl⟩
    cases result : config.counterCount with
    | ok count => exact absurd (counterCount_eq_ok_iff_product.mp result).1 unfit
    | error failure => rw [reported result, rejection]

/-- The counters of an accepted table and the seeds of its rows can be held in memory. -/
theorem bytes_le (accepted : config.counterCount = .ok count) :
    4 * count.toNat ≤ 2 ^ 63 - 1 ∧ 8 * config.depth.toNat ≤ 2 ^ 63 - 1 := by
  obtain ⟨⟨positive, small⟩, value⟩ := counterCount_eq_ok_iff_product.mp accepted
  have rows : config.depth.toNat ≤ config.product :=
    Nat.le_mul_of_pos_right _ (Nat.pos_of_mul_pos_left positive)
  omega

end SketchConfig

namespace CountMinSketch

variable {κ : Type} [HashInput κ] {config : SketchConfig} {count : UInt64}

/-- The place of a hash in a row, as a number. -/
def place (sketch : CountMinSketch) (row : Nat) (hash : UInt64) : Nat :=
  row * sketch.width.toNat + (sketch.rowWord row hash % sketch.width).toNat

/-- A sketch of given dimensions whose hashes have places of their own in every row. -/
structure Addressed (sketch : CountMinSketch) (config : SketchConfig) : Prop where
  /-- It has the rows that were asked for. -/
  depth_eq : sketch.depth = config.depth.toNat
  /-- It has the columns that were asked for. -/
  width_eq : sketch.width = config.width
  /-- It has a counter for every row and column. -/
  size_eq : sketch.counters.size = config.depth.toNat * config.width.toNat
  /-- Remainders by the width can be taken. -/
  width_ne_zero : sketch.width ≠ 0
  /-- The place that is computed for a hash in a row does not overflow. -/
  getElem?_cells : ∀ row < sketch.depth, ∀ hash,
    (sketch.cells hash)[row]? = some (sketch.place row hash) ∧
      sketch.place row hash < UInt64.size
  /-- There is a counter at the place. -/
  place_lt : ∀ row < sketch.depth, ∀ hash, sketch.place row hash < sketch.counters.size
  /-- The place is in the segment of the row. -/
  place_mem : ∀ row < sketch.depth, ∀ hash,
    row * sketch.width.toNat ≤ sketch.place row hash ∧
      sketch.place row hash < (row + 1) * sketch.width.toNat
  /-- Rows share no place, whatever is looked up in them. -/
  place_ne : ∀ row < sketch.depth, ∀ other < sketch.depth, row ≠ other →
    ∀ hash another, sketch.place row hash ≠ sketch.place other another

namespace Sized

variable {sketch : CountMinSketch} {row : Nat}

/-- The column of a hash is within the width. -/
theorem rowWord_mod_lt (sized : sketch.Sized) (row : Nat) (hash : UInt64) :
    (sketch.rowWord row hash % sketch.width).toNat < sketch.width.toNat := by
  rw [UInt64.toNat_mod]
  exact Nat.mod_lt _ sized.width_pos

/-- The place of a hash is in the segment of the row. -/
theorem place_mem (sized : sketch.Sized) (row : Nat) (hash : UInt64) :
    row * sketch.width.toNat ≤ sketch.place row hash ∧
      sketch.place row hash < (row + 1) * sketch.width.toNat := by
  have column := sized.rowWord_mod_lt row hash
  rw [place, Nat.succ_mul]
  omega

/-- Nothing overflows while a place is computed. -/
theorem getElem?_cells_eq_place (sized : sketch.Sized) (inside : row < sketch.depth)
    (hash : UInt64) : (sketch.cells hash)[row]? = some (sketch.place row hash) := by
  have rowEnd : (row + 1) * sketch.width.toNat ≤ sketch.depth * sketch.width.toNat :=
    Nat.mul_le_mul_right _ inside
  have addressable := sized.addressable
  have rows : row + 1 ≤ (row + 1) * sketch.width.toNat := Nat.le_mul_of_pos_right _ sized.width_pos
  have word : (UInt64.ofNat row).toNat = row := UInt64.toNat_ofNat_of_lt' (by omega)
  -- The end of the row is within the table, and the table has fewer counters than there are words.
  have below : ((UInt64.ofNat row).toNat + 1) * sketch.width.toNat < UInt64.size := by
    rw [word]
    omega
  have computed := toNat_cell (sketch.seeds.getD row 0) hash sized.width_pos below
  rw [word] at computed
  rw [getElem?_cells inside, Option.some.injEq]
  exact computed

/-- A table with a counter for every row and column has one for every place, and a place for
every hash in each row. -/
theorem addressed (sized : sketch.Sized) (rows : sketch.depth = config.depth.toNat)
    (columns : sketch.width = config.width) : sketch.Addressed config where
  depth_eq := rows
  width_eq := columns
  size_eq := by rw [sized.size_eq, rows, columns]
  width_ne_zero zero := by
    have positive := sized.width_pos
    rw [zero] at positive
    exact Nat.lt_irrefl 0 positive
  getElem?_cells row inside hash := by
    refine ⟨sized.getElem?_cells_eq_place inside hash, ?_⟩
    calc sketch.place row hash
        < sketch.depth * sketch.width.toNat := place_lt inside (sized.rowWord_mod_lt row hash)
      _ < UInt64.size := sized.addressable
  place_lt row inside hash := by
    calc sketch.place row hash
        < sketch.depth * sketch.width.toNat := place_lt inside (sized.rowWord_mod_lt row hash)
      _ = sketch.counters.size := sized.size_eq.symm
  place_mem row _ hash := sized.place_mem row hash
  place_ne row _ other _ apart hash another same := by
    have column := sized.rowWord_mod_lt row hash
    have within := sized.rowWord_mod_lt other another
    exact apart (row_column_inj column within same).1

end Sized

/-- Dimensions are accepted exactly when their product is neither zero nor too large, and then the
table has that many counters, so that neither it nor the seeds of its rows are beyond what memory
can address; otherwise the dimensions are reported. A sketch of accepted dimensions has, after
every run, a counter for every row and column; every hash has a place in every row, computed
without overflow; and no two rows share a counter. -/
theorem run_build_addressed (config : SketchConfig) :
    (∀ count, config.counterCount = .ok count ↔
      (0 < config.product ∧ config.product ≤ (2 ^ 63 - 1) / 8) ∧
        count.toNat = config.product) ∧
    (∀ count, config.counterCount = .ok count →
      4 * count.toNat ≤ 2 ^ 63 - 1 ∧ 8 * config.depth.toNat ≤ 2 ^ 63 - 1) ∧
    (∀ rejection, config.counterCount = .error rejection ↔
      ¬(0 < config.product ∧ config.product ≤ (2 ^ 63 - 1) / 8) ∧
        rejection = .invalidSketchDimensions config.depth config.width) ∧
    ∀ count, config.counterCount = .ok count →
      ∀ (builder : HashBuilder) (calls : List (SketchCall κ)),
        ((build config builder count).state.run calls).Addressed config := by
  refine ⟨fun _ => SketchConfig.counterCount_eq_ok_iff_product,
    fun _ => SketchConfig.bytes_le, fun _ => SketchConfig.counterCount_eq_error_iff, ?_⟩
  intro count accepted builder calls
  have start := tallies_build (κ := κ) accepted builder
  have sized := (start.run calls).sized
  obtain ⟨counters, changed⟩ := (build config builder count).state.exists_counters_run calls
  have rows := depth_build config builder count
  rw [changed] at sized ⊢
  exact sized.addressed rows rfl

/-- A table of two rows has its places, and dimensions whose product is more than a word are
reported although the word that is left of it would be accepted. -/
theorem run_build_addressed_seeded :
    let config : SketchConfig := ⟨2, 8, some 7⟩
    let calls : List (SketchCall UInt64) := [.increment 1, .clear, .incrementBy 2 9]
    let wrapping : SketchConfig := ⟨0x100000001, 0x100000000, none⟩
    config.counterCount = .ok 16 ∧
      ((build config .fnv 16).state.run calls).Addressed config ∧
      (SketchConfig.ofDimensions 1 (wrapping.depth * wrapping.width)).counterCount =
        .ok 0x100000000 ∧
      wrapping.counterCount =
        .error (.invalidSketchDimensions wrapping.depth wrapping.width) := by
  intro config calls wrapping
  have small := run_build_addressed (κ := UInt64) config
  have single := run_build_addressed (κ := UInt64)
    (.ofDimensions 1 (wrapping.depth * wrapping.width))
  have large := run_build_addressed (κ := UInt64) wrapping
  have accepted : config.counterCount = .ok 16 := (small.1 16).mpr (by decide)
  exact ⟨accepted, small.2.2.2 16 accepted .fnv calls, (single.1 _).mpr (by decide),
    (large.2.2.1 _).mpr ⟨by decide, rfl⟩⟩

end CountMinSketch

end EvictionCache
