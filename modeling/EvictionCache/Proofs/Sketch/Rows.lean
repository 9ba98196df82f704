import EvictionCache.Proofs.Sketch.Counters
import EvictionCache.Proofs.Sketch.Mixer

/-!
# The hash functions of the rows

A row mixes the hash of a key with its seed; only the remainder of that word by the width is its
column (`CountMinSketch.rowWord`). Since mixing loses nothing, a row has different words for
different hashes, and since no seed is drawn twice, a hash has different words in different rows.
What two keys share in a row they share through the remainder alone.
-/
namespace EvictionCache

namespace CountMinSketch

open Function (Injective Bijective)

variable {κ : Type} [HashInput κ] {sketch : CountMinSketch}

/-- The word that a row makes of a hash, before it is reduced to a column. -/
def rowWord (sketch : CountMinSketch) (row : Nat) (hash : UInt64) : UInt64 :=
  Mixer.mix (hash ^^^ sketch.seeds.getD row 0)

/-- The place of a hash in a row is the start of the row and the remainder of its word. -/
theorem getElem?_cells {row : Nat} (inside : row < sketch.depth) (hash : UInt64) :
    (sketch.cells hash)[row]? = some
      (UInt64.ofNat row * sketch.width + sketch.rowWord row hash % sketch.width).toNat := by
  have seed : sketch.seeds[row]? = some (sketch.seeds.getD row 0) := by
    rw [Array.getD_eq_getD_getElem?, Array.getElem?_eq_getElem inside, Option.getD_some]
  rw [cells, List.getElem?_mapIdx, Array.getElem?_toList, seed]
  rfl

/-- A row has different words for different hashes. -/
theorem rowWord_injective (sketch : CountMinSketch) (row : Nat) :
    Injective (sketch.rowWord row) := by
  intro one other same
  have masked : one ^^^ sketch.seeds.getD row 0 = other ^^^ sketch.seeds.getD row 0 :=
    Mixer.mix_injective same
  exact (UInt64.xor_left_inj _).mp masked

/-- Hashes with one place in a row have words there with one remainder. -/
theorem rowWord_mod_eq {row : Nat} (inside : row < sketch.depth) {one other : UInt64}
    (shared : (sketch.cells one)[row]? = (sketch.cells other)[row]?) :
    sketch.rowWord row one % sketch.width = sketch.rowWord row other % sketch.width := by
  rw [getElem?_cells inside, getElem?_cells inside, Option.some.injEq] at shared
  exact (UInt64.add_right_inj _).mp (UInt64.toNat_inj.mp shared)

/-- A hash has different words in rows with different seeds. -/
theorem rowWord_ne (distinct : sketch.seeds.toList.Nodup) {row other : Nat}
    (rowInside : row < sketch.depth) (otherInside : other < sketch.depth) (apart : row ≠ other)
    (hash : UInt64) : sketch.rowWord row hash ≠ sketch.rowWord other hash := by
  intro same
  have masked : hash ^^^ sketch.seeds.getD row 0 = hash ^^^ sketch.seeds.getD other 0 :=
    Mixer.mix_injective same
  have seeds : sketch.seeds.getD row 0 = sketch.seeds.getD other 0 :=
    (UInt64.xor_right_inj _).mp masked
  have drawn : sketch.seeds.toList[row]? = sketch.seeds.toList[other]? := by
    rw [Array.getD_eq_getD_getElem?, Array.getD_eq_getD_getElem?,
      Array.getElem?_eq_getElem rowInside, Array.getElem?_eq_getElem otherInside] at seeds
    rw [Array.getElem?_toList, Array.getElem?_toList, Array.getElem?_eq_getElem rowInside,
      Array.getElem?_eq_getElem otherInside]
    exact congrArg some seeds
  exact apart (List.getElem?_inj rowInside distinct |>.mp drawn)

/-- The seeds are those that the sketch was built with, whatever was counted. -/
theorem seeds_run_build (config : SketchConfig) (builder : HashBuilder) (count : UInt64)
    (calls : List (SketchCall κ)) :
    ((build config builder count).state.run calls).seeds.toList =
      Mixer.seeds (startingSeed config builder) config.depth.toNat := by
  obtain ⟨counters, changed⟩ := (build config builder count).state.exists_counters_run calls
  rw [changed]
  rfl

/-- From whatever state seeds are drawn, no two are the same as long as there are no more of them
than words, and mixing is a bijection on words. So in every sketch, after every run, a row makes
different words of different hashes: hashes with one place in a row have different words there,
only with the same remainder by the width. And of one hash no two rows make the same word. -/
theorem run_build_rows_apart (config : SketchConfig) (builder : HashBuilder) (count : UInt64)
    (calls : List (SketchCall κ)) :
    let sketch := (build config builder count).state.run calls
    (∀ state, ∀ drawn ≤ UInt64.size, (Mixer.seeds state drawn).Nodup) ∧
    Bijective Mixer.mix ∧
    sketch.seeds.toList = Mixer.seeds (startingSeed config builder) config.depth.toNat ∧
    sketch.seeds.toList.Nodup ∧
    (∀ row < sketch.depth, ∀ hash, (sketch.cells hash)[row]? = some
      (UInt64.ofNat row * sketch.width + sketch.rowWord row hash % sketch.width).toNat) ∧
    (∀ row, Injective (sketch.rowWord row)) ∧
    (∀ row < sketch.depth, ∀ one other, one ≠ other →
      (sketch.cells one)[row]? = (sketch.cells other)[row]? →
        sketch.rowWord row one ≠ sketch.rowWord row other ∧
        sketch.rowWord row one % sketch.width = sketch.rowWord row other % sketch.width) ∧
    ∀ row < sketch.depth, ∀ other < sketch.depth, row ≠ other →
      ∀ hash, sketch.rowWord row hash ≠ sketch.rowWord other hash := by
  intro sketch
  have drawn : sketch.seeds.toList = Mixer.seeds (startingSeed config builder) config.depth.toNat :=
    seeds_run_build config builder count calls
  have distinct : sketch.seeds.toList.Nodup := by
    rw [drawn]
    exact Mixer.seeds_nodup _ (Nat.le_of_lt config.depth.toNat_lt_size)
  refine ⟨fun state _ few => Mixer.seeds_nodup state few, Mixer.mix_bijective, drawn, distinct,
    fun _ inside => getElem?_cells inside, sketch.rowWord_injective, ?_, ?_⟩
  · intro row inside one other different shared
    exact ⟨(sketch.rowWord_injective row).ne different, rowWord_mod_eq inside shared⟩
  · intro row rowInside other otherInside apart hash
    exact rowWord_ne distinct rowInside otherInside apart hash

/-- In the first of two rows of eight columns the hashes 0 and 4 share a place, but no word; the
hash 0 has another word in the second row. -/
theorem run_build_rows_apart_seeded :
    let config : SketchConfig := ⟨2, 8, some 7⟩
    let calls : List (SketchCall UInt64) := [.increment 1, .incrementBy 2 9]
    let sketch := (build config .fnv 16).state.run calls
    2 ≤ UInt64.size ∧ (Mixer.seeds 7 2).Nodup ∧ 0 < sketch.depth ∧ 1 < sketch.depth ∧
      (0 : UInt64) ≠ 4 ∧ (sketch.cells 0)[0]? = (sketch.cells 4)[0]? ∧
      sketch.rowWord 0 0 ≠ sketch.rowWord 0 4 ∧ sketch.rowWord 0 0 ≠ sketch.rowWord 1 0 := by
  intro config calls sketch
  have few : 2 ≤ UInt64.size := by decide
  have rows : sketch.depth = 2 := by decide +kernel
  have first : 0 < sketch.depth := by omega
  have second : 1 < sketch.depth := by omega
  have different : (0 : UInt64) ≠ 4 := by decide
  have shared : (sketch.cells 0)[0]? = (sketch.cells 4)[0]? := by decide +kernel
  obtain ⟨drawn, _, _, _, _, _, collide, apart⟩ := run_build_rows_apart config .fnv 16 calls
  exact ⟨few, drawn 7 2 few, first, second, different, shared,
    (collide 0 first 0 4 different shared).1, apart 0 first 1 second (by decide) 0⟩

end CountMinSketch

end EvictionCache
