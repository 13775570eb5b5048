/-!
# Hashers

A table hashes its keys with the hasher it is built with, the `S: BuildHasher`
parameter of the table: one hash for a 64-bit word key (`write_u64`, then
`finish`) and one for a text key (`write` of its UTF-8 bytes, then `write_u8`
of `0xff`, which ends the text so that no text hashes as a prefix of another).

The tables' default hasher, `FxBuildHasher`, belongs to a dependency; it is a
parameter here like any other, and nothing the library proves depends on the
hashes a hasher computes. The one hasher defined here is `identity`, that of
the tests: a word key is its own hash, so its home bucket is the key modulo the
bucket count, and a text key shifts its bytes and `0xff` into a 64-bit word, so
it keeps the last eight of them, big-endian.
-/
namespace ShardCache

/-- The hash functions of a table's keys.
mirrors src/src/policy/lru.rs:165-176 -/
structure Hasher where
  /-- The hash of a 64-bit word key. -/
  word : UInt64 → UInt64
  /-- The hash of a text key. -/
  text : String → UInt64

namespace Hasher

/-- The identity hasher's state after shifting in the bytes.
mirrors src/src/policy/lru.rs:1095-1099 -/
def shiftIn (state : UInt64) (bytes : List UInt8) : UInt64 :=
  bytes.foldl (fun acc b => (acc <<< 8) ||| b.toUInt64) state

/-- The hasher of the tests, under which every word key hashes to itself.
mirrors src/src/policy/lru.rs:1084-1112 -/
def identity : Hasher where
  word k := k
  text s := shiftIn 0 (s.toUTF8.toList ++ [0xff])

end Hasher

end ShardCache
