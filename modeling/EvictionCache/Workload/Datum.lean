/-!
# Values of a workload

Values are structured data without records: nothing, a truth value, an integer, a text or a
list. Two values are equal when they have the same structure.
-/
namespace EvictionCache

/-- A structured value. -/
inductive Datum where
  /-- Nothing. -/
  | null
  /-- A truth value. -/
  | truth (value : Bool)
  /-- An integer. -/
  | number (value : Int)
  /-- A text. -/
  | text (content : String)
  /-- Several values in order. -/
  | list (items : List Datum)
deriving Inhabited

namespace Datum

mutual

/-- Whether two values have the same structure. -/
def same : Datum → Datum → Bool
  | null, null => true
  | truth left, truth right => left == right
  | number left, number right => left == right
  | text left, text right => left == right
  | list left, list right => sameItems left right
  | _, _ => false

/-- Whether two lists have the same structure item by item. -/
def sameItems : List Datum → List Datum → Bool
  | [], [] => true
  | left :: lefts, right :: rights => left.same right && sameItems lefts rights
  | _, _ => false

end

instance : BEq Datum := ⟨same⟩

/-- The size of a text in bytes or of a list in items, an integer itself, one or zero for a
truth value, and minus one for nothing. -/
def measure : Datum → Int
  | null => -1
  | truth value => if value then 1 else 0
  | number value => value
  | text content => content.utf8ByteSize
  | list items => items.length

end Datum

end EvictionCache
