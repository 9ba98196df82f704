import EvictionCache.Sketch.HashBuilder

/-!
# Keys of a workload

Keys are texts or integers; a text is never equal to an integer. A `FoldedKey` is the same key
under an equality that does not tell the case of ASCII letters, so that several spellings name
one key. Its hash is that of the lower-case spelling and agrees with the equality.
-/
namespace EvictionCache

/-- A text or an integer. -/
inductive Key where
  /-- A text. -/
  | text (content : String)
  /-- An integer. -/
  | number (value : Int)
deriving DecidableEq, Hashable

/-- A text feeds itself to a hash, and an integer the word that it is modulo the word size. -/
instance : HashInput Key where
  bytes
    | .text content => HashInput.bytes content
    | .number value => HashInput.bytes (UInt64.ofInt value)

/-- The key with ASCII letters in lower case. -/
def Key.folded : Key → Key
  | text content => text (content.map Char.toLower)
  | number value => number value

/-- A key that is equal to its spellings in other case. -/
structure FoldedKey where
  /-- The key as it was spelled. -/
  spelling : Key

namespace FoldedKey

instance : BEq FoldedKey where
  beq left right := left.spelling.folded == right.spelling.folded

instance : Hashable FoldedKey where
  hash key := hash key.spelling.folded

/-- Equality of lower-case spellings is an equivalence. -/
instance : EquivBEq FoldedKey where
  rfl := BEq.rfl (α := Key)
  symm := BEq.symm (α := Key)
  trans := BEq.trans (α := Key)

/-- Spellings of one key hash alike. -/
instance : LawfulHashable FoldedKey where
  hash_eq _ _ same :=
    congrArg (fun key : Key => hash key) (eq_of_beq (α := Key) same)

end FoldedKey

end EvictionCache
