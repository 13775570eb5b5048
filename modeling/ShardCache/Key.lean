import ShardCache.Hash.Hasher
import ShardCache.Json.Value
import ShardCache.Text.Quoted
/-!
# Keys

A table stores keys of one type. `CacheKey` says what the table needs of
that type besides equality: its hash under each hasher, the order in which a
sorted listing puts keys, the text of a key inside a description, and its
JSON form in answers.

Two key types are provided. A 64-bit word is hashed as a word, ordered by
value and described in decimal. A text is hashed through its UTF-8 bytes,
ordered by code points and described by `Text.quote`.
-/
namespace ShardCache

/-- What a table needs of its keys, besides decidable equality.
mirrors src/src/policy/lru.rs:495-498 -/
class CacheKey (κ : Type) where
  /-- The hash of a key under a hasher. -/
  hash : Hasher → κ → UInt64
  /-- The order of a sorted listing. -/
  before : κ → κ → Bool
  /-- The text of a key inside a description. -/
  describe : κ → String
  /-- The JSON form of a key. -/
  toJson : κ → Json.Value

instance : CacheKey UInt64 where
  hash h k := h.word k
  before a b := decide (a < b)
  describe k := toString k.toNat
  toJson k := .nat k.toNat

instance : CacheKey String where
  hash h s := h.text s
  before a b := decide (a < b)
  describe s := Text.quote s
  toJson s := .str s

end ShardCache
