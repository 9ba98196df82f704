/-!
# Hash builders

A hash builder turns a sequence of bytes into a word; any function will do. Keys are hashed
through the bytes that they feed to it. The standard builder is the 64-bit FNV-1a hash.
-/
namespace EvictionCache

/-- A hash function on sequences of bytes. -/
structure HashBuilder where
  /-- The hash of a sequence of bytes. -/
  digest : List UInt8 → UInt64

/-- Keys that feed bytes to a hash function. -/
class HashInput (κ : Type) where
  /-- The bytes of a key. -/
  bytes : κ → List UInt8

/-- The low-order byte of a word first, for a number of bytes. -/
def littleEndian (word : UInt64) : Nat → List UInt8
  | 0 => []
  | count + 1 => word.toUInt8 :: littleEndian (word >>> 8) count

/-- A word feeds its eight bytes, the low-order byte first. -/
instance : HashInput UInt64 where
  bytes word := littleEndian word 8

/-- A text feeds its UTF-8 bytes and a byte that occurs in none. -/
instance : HashInput String where
  bytes text := text.toUTF8.toList ++ [0xFF]

namespace HashBuilder

/-- The hash of a key. -/
def hash {κ : Type} [HashInput κ] (builder : HashBuilder) (key : κ) : UInt64 :=
  builder.digest (HashInput.bytes key)

/-- The state of the FNV-1a hash before the first byte. -/
def fnvOffset : UInt64 := 0xCBF29CE484222325

/-- The multiplier of the FNV-1a hash. -/
def fnvPrime : UInt64 := 0x100000001B3

/-- The 64-bit FNV-1a hash. -/
def fnv : HashBuilder where
  digest bytes := bytes.foldl (fun state byte => (state ^^^ byte.toUInt64) * fnvPrime) fnvOffset

/-- The hash that is zero for every key. -/
def zero : HashBuilder := ⟨fun _ => 0⟩

end HashBuilder

end EvictionCache
