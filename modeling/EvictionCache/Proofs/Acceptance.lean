import EvictionCache.Shared.Basic

/-!
# Accepted configurations

Whether a cache can be built depends on three things that are looked at in this order: the number
of entries, the number of threads expected where there is one, and the load factor. The first
that is wrong is reported (`Decided`). A load factor is right when its encoding is among those
from the smallest positive number to one, which are the encodings of all numbers above zero and up
to one: positive numbers have their encodings in the same order, and whatever is negative, too
large or no number comes after one.
-/
namespace EvictionCache

namespace Binary32

/-- The encoding is between those of the smallest positive number and of one. -/
def UpToOne (number : Binary32) : Prop :=
  0x00000001 ≤ number.bits.toNat ∧ number.bits.toNat ≤ 0x3F800000

/-- These encodings stand for the numbers above zero and up to one. -/
theorem upToOne_iff (number : Binary32) :
    number.UpToOne ↔ number.isFinite ∧ 0 < number.place ∧ number.place ≤ one.place := by
  have bound := number.bits.toNat_lt
  have top : one.place = 0x3F800000 := rfl
  rw [top, UpToOne, isFinite, place, isNegative, magnitude, infinityMagnitude]
  simp only [decide_eq_true_iff]
  split <;> omega

/-- What is finite is a number. -/
theorem isNaN_of_isFinite {number : Binary32} (finite : number.isFinite = true) :
    number.isNaN = false := by
  simp only [isFinite, isNaN, decide_eq_true_iff, decide_eq_false_iff_not] at finite ⊢
  omega

end Binary32

/-- A number of entries above zero is a capacity. -/
theorem CacheConfig.ofEntries_of_pos {entries : Nat} (positive : 0 < entries) :
    ofEntries entries = .ok (ofCapacity ⟨entries, positive⟩) := by
  rw [ofEntries, Capacity.ofNat?, dif_pos positive]

/-- The load factor decides whether a configuration is valid. -/
theorem CacheConfig.validate_eq (config : CacheConfig) :
    (config.loadFactor.UpToOne → config.validate = .ok ()) ∧
      (¬ config.loadFactor.UpToOne →
        config.validate = .error (.invalidLoadFactor config.loadFactor)) := by
  have zeroPlace : Binary32.zero.place = 0 := rfl
  have zeroNumber : Binary32.zero.isNaN = false := rfl
  have oneNumber : Binary32.one.isNaN = false := rfl
  rw [Binary32.upToOne_iff, validate, Binary32.atMost, Binary32.below, zeroPlace, zeroNumber,
    oneNumber]
  cases finite : config.loadFactor.isFinite with
  | false => simp
  | true =>
    rw [Binary32.isNaN_of_isFinite finite]
    simp

/-- What came of building something for a number of entries, with a number of expected threads
where there is one and with a load factor. -/
structure Decided {σ : Type} (result : Except ConfigError σ) (entries : Nat) (level? : Option Nat)
    (factor : Binary32) (sound : σ → Prop) : Prop where
  /-- Zero entries are reported first. -/
  zeroCapacity_iff : result = .error .zeroCapacity ↔ entries = 0
  /-- Otherwise zero threads are reported. -/
  zeroConcurrencyLevel_iff :
    result = .error .zeroConcurrencyLevel ↔ entries ≠ 0 ∧ level? = some 0
  /-- Otherwise a load factor outside the range is reported, as it was given. -/
  invalidLoadFactor_iff : ∀ given, result = .error (.invalidLoadFactor given) ↔
    entries ≠ 0 ∧ level? ≠ some 0 ∧ ¬ factor.UpToOne ∧ given = factor
  /-- Otherwise it was built. -/
  ok_iff : (∃ built, result = .ok built) ↔ entries ≠ 0 ∧ level? ≠ some 0 ∧ factor.UpToOne
  /-- What was built is sound. -/
  sound_of_ok : ∀ built, result = .ok built → sound built

/-- The cases in which something is or is not built exclude each other. -/
theorem Decided.of_cases {σ : Type} {result : Except ConfigError σ} {entries : Nat}
    {level? : Option Nat} {factor : Binary32} {sound : σ → Prop}
    (empty : entries = 0 → result = .error .zeroCapacity)
    (alone : entries ≠ 0 → level? = some 0 → result = .error .zeroConcurrencyLevel)
    (outside : entries ≠ 0 → level? ≠ some 0 → ¬ factor.UpToOne →
      result = .error (.invalidLoadFactor factor))
    (inside : entries ≠ 0 → level? ≠ some 0 → factor.UpToOne →
      ∃ built, result = .ok built ∧ sound built) :
    Decided result entries level? factor sound := by
  by_cases void : entries = 0
  · rw [empty void]
    constructor <;> simp [void]
  · by_cases zero : level? = some 0
    · rw [alone void zero]
      constructor <;> simp [void, zero]
    · by_cases range : factor.UpToOne
      · obtain ⟨built, made, good⟩ := inside void zero range
        rw [made]
        constructor <;> simp [void, zero, range, good]
      · rw [outside void zero range]
        constructor <;> simp [void, zero, range, eq_comm]

end EvictionCache
