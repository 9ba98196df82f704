import Mathlib.Data.List.Basic
import Std.Data.TreeMap

/-!
# Sorted maps as lists

The list of a sorted map is determined by what the map holds: it is the only list in strictly
increasing order of the keys with exactly the pairs of the map.
-/
namespace EvictionCache

variable {κ ν : Type} [Ord κ] [Std.TransOrd κ]

/-- A list of pairs in strictly increasing order of their keys. -/
def StrictlySorted (pairs : List (κ × ν)) : Prop :=
  pairs.Pairwise fun left right => compare left.1 right.1 = .lt

/-- No pair occurs twice in a strictly increasing list. -/
theorem StrictlySorted.nodup {pairs : List (κ × ν)} (sorted : StrictlySorted pairs) :
    pairs.Nodup := by
  refine sorted.imp fun {left right} before same => ?_
  rw [same, Std.ReflOrd.compare_self] at before
  cases before

/-- The lowest key is the first listed. -/
theorem minKey?_eq_head? (map : Std.TreeMap κ ν) : map.minKey? = map.toList.head?.map Prod.fst := by
  rw [Std.TreeMap.minKey?_eq_head?_keys, ← Std.TreeMap.map_fst_toList_eq_keys, List.head?_map]

/-- A sorted map lists exactly its pairs, in the only way in which their keys increase. -/
theorem toList_eq_of_mem_iff [Std.LawfulEqOrd κ] {map : Std.TreeMap κ ν} {pairs : List (κ × ν)}
    (sorted : StrictlySorted pairs)
    (mem_iff : ∀ key value, (key, value) ∈ pairs ↔ map[key]? = some value) :
    map.toList = pairs := by
  have listed : StrictlySorted map.toList := Std.TreeMap.ordered_keys_toList
  have same : map.toList.Perm pairs := by
    refine (List.perm_ext_iff_of_nodup listed.nodup sorted.nodup).mpr fun pair => ?_
    obtain ⟨key, value⟩ := pair
    rw [mem_iff, Std.TreeMap.mem_toList_iff_getElem?_eq_some]
  refine same.eq_of_pairwise (fun left right _ _ before after => ?_) listed sorted
  rw [Std.OrientedOrd.eq_swap (a := left.1), after] at before
  cases before

end EvictionCache
