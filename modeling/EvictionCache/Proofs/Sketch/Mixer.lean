import EvictionCache.Sketch.Mixer
import Mathlib.Data.FinEnum
import Mathlib.Data.List.Nodup
import Mathlib.Data.Nat.ModEq
import Mathlib.Data.Nat.Prime.Basic

/-!
# Mixing loses nothing

Both rounds of mixing can be undone. A fold of the high bits onto the low ones tells the word
that was folded, since what two words differ in would have to equal itself shifted down; and an
odd multiplier has no factor in common with the number of words. So `mix` is a bijection, and a
state that advances by an odd step comes back to where it was only after all words.
-/
namespace EvictionCache.Mixer

open Function (Injective Bijective)

section Rounds

/-- A word that is itself shifted down is zero. -/
theorem eq_zero_of_shiftRight_eq {word shift : UInt64} (positive : 0 < shift.toNat % 64)
    (same : word >>> shift = word) : word = 0 := by
  have quotient : word.toNat / 2 ^ (shift.toNat % 64) = word.toNat := by
    have numbers := congrArg UInt64.toNat same
    rwa [UInt64.toNat_shiftRight, Nat.shiftRight_eq_div_pow] at numbers
  have divisor : 1 < 2 ^ (shift.toNat % 64) := Nat.one_lt_two_pow (by omega)
  by_contra differs
  have nonzero : 0 < word.toNat := by
    apply Nat.pos_of_ne_zero
    intro zero
    exact differs (UInt64.toNat_inj.mp zero)
  have smaller := Nat.div_lt_self nonzero divisor
  omega

/-- Folding the high bits of a word onto the low ones loses nothing. -/
theorem fold_injective (shift : UInt64) (positive : 0 < shift.toNat % 64) :
    Injective fun word => fold word shift := by
  intro one other same
  -- What the two words differ in is its own shift, so they differ in nothing.
  have difference : (one ^^^ other) >>> shift = one ^^^ other := by
    have folded : one ^^^ one >>> shift = other ^^^ other >>> shift := same
    have both : (one ^^^ one >>> shift) ^^^ (other ^^^ other >>> shift) = 0 :=
      UInt64.xor_eq_zero_iff.mpr folded
    rw [UInt64.shiftRight_xor, ← UInt64.xor_eq_zero_iff]
    calc one >>> shift ^^^ other >>> shift ^^^ (one ^^^ other)
        = (one ^^^ one >>> shift) ^^^ (other ^^^ other >>> shift) := by ac_rfl
      _ = 0 := both
  exact UInt64.xor_eq_zero_iff.mp (eq_zero_of_shiftRight_eq positive difference)

/-- Multiplying by an odd word loses nothing. -/
theorem mul_injective_of_odd (multiplier : UInt64) (odd : multiplier.toNat % 2 = 1) :
    Injective fun word => word * multiplier := by
  intro one other same
  have congruent : one.toNat * multiplier.toNat ≡ other.toNat * multiplier.toNat [MOD 2 ^ 64] := by
    have products : one * multiplier = other * multiplier := same
    have numbers := congrArg UInt64.toNat products
    rwa [UInt64.toNat_mul, UInt64.toNat_mul] at numbers
  have coprime : Nat.gcd (2 ^ 64) multiplier.toNat = 1 :=
    (Nat.coprime_two_left.mpr (Nat.odd_iff.mpr odd)).pow_left 64
  have equal : one.toNat ≡ other.toNat [MOD 2 ^ 64] :=
    Nat.ModEq.cancel_right_of_coprime coprime congruent
  exact UInt64.toNat_inj.mp (equal.eq_of_lt_of_lt one.toNat_lt other.toNat_lt)

/-- Mixing loses nothing. -/
theorem mix_injective : Injective mix := by
  intro one other same
  -- The rounds are undone from the last to the first.
  have third := fold_injective 31 (by decide) same
  have second := mul_injective_of_odd secondMultiplier (by decide) third
  have folded := fold_injective 27 (by decide) second
  have first := mul_injective_of_odd firstMultiplier (by decide) folded
  exact fold_injective 30 (by decide) first

/-- Mixing reaches every word, and each from one word only. -/
theorem mix_bijective : Bijective mix := Finite.injective_iff_bijective.mp mix_injective

end Rounds

section Seeds

/-- The states from which seeds are mixed lie one step apart. -/
theorem seeds_eq_map (state : UInt64) (count : Nat) :
    seeds state count =
      (List.range count).map fun drawn => mix (state + UInt64.ofNat (drawn + 1) * step) := by
  induction count generalizing state with
  | zero => rfl
  | succ count ih =>
    have advanced : ∀ drawn : Nat, state + step + UInt64.ofNat (drawn + 1) * step =
        state + UInt64.ofNat (drawn + 1 + 1) * step := by
      intro drawn
      rw [UInt64.ofNat_add (drawn + 1) 1, UInt64.add_mul, UInt64.add_assoc,
        UInt64.add_comm step]
      simp
    rw [seeds, ih, List.range_succ_eq_map, List.map_cons, List.map_map]
    simp only [advanced]
    simp [Function.comp_def]

/-- As long as no more seeds are drawn than there are words, no seed is drawn twice. -/
theorem seeds_nodup (state : UInt64) {count : Nat} (few : count ≤ UInt64.size) :
    (seeds state count).Nodup := by
  rw [seeds_eq_map]
  refine List.nodup_range.map_on fun one first other second same => ?_
  have steps : UInt64.ofNat (one + 1) * step = UInt64.ofNat (other + 1) * step :=
    (UInt64.add_right_inj state).mp (mix_injective same)
  have drawn : UInt64.ofNat (one + 1) = UInt64.ofNat (other + 1) :=
    mul_injective_of_odd step (by decide) steps
  have numbers := congrArg UInt64.toNat drawn
  simp only [UInt64.toNat_ofNat', UInt64.size, List.mem_range] at numbers few first second
  omega

end Seeds

end EvictionCache.Mixer
