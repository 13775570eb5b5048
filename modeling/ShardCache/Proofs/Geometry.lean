import ShardCache.Proofs.Capacity
import ShardCache.Concurrent.BucketLocks
import ShardCache.Concurrent.Relink
/-!
# Valid geometries and the ids they hand out

A table is built only from a geometry that `Config.validate` accepts. The
validation counts the slot ids in 64-bit words, yet it accepts and refuses
exactly as the unbounded conditions say, with the error of the first that
fails (`Config.validate_eq`). The builder's default bucket count is the least
power of two at or above twice the capacity (saturated at the largest word),
or the largest word when no such power fits, and it always exceeds a capacity
below the largest word.

On a valid geometry the shards' partitions are non-empty, pairwise disjoint
and together the data slots; each shard but the last owns `capacity / shards`
slots and the last the rest. The data slots and the two sentinels of every
shard are `capacity + 2·shards` distinct ids, all below `listEnd`, so every
cast of a partition bound or a sentinel to a 32-bit word keeps its value, and
no id is one of the reserved words of a list end, a locked link, a free bucket
or a locked bucket.

Results:
* `isLeast_nextPowerOfTwo`, `Builder.defaultBuckets_of_fits`,
  `Builder.defaultBuckets_of_not_fits`, `Builder.lt_defaultBuckets`: the
  builder's bucket count.
* `Config.lt_capacity_iff_mem_partition`, `Config.quota_eq`: the partitions, with
  `Config.partition_disjoint` of the fresh table.
* `Config.arenaIds_eq`, `Config.arenaIds_nodup`, `Config.toNat_lt_of_mem_arenaIds`:
  the ids.
* `Config.Layout`, `Config.layout_of_validate`: all of it for a valid geometry.
* `Table.Reach.shardCapacity_eq`: every table a run reaches reports the
  partition sizes as the shards' capacities.
* `build_checks_geometry`: the whole of it.
-/
namespace ShardCache

/-! ## The builder's bucket count -/

/-- `nextPowerOfTwo n` is the least power of two at or above `n`. -/
theorem isLeast_nextPowerOfTwo (n : Nat) :
    IsLeast {p | p.isPowerOfTwo ∧ n ≤ p} (nextPowerOfTwo n) := by
  unfold nextPowerOfTwo
  split
  · -- `1 = 2 ^ 0` is the least power of two
    refine ⟨⟨⟨0, rfl⟩, by omega⟩, ?_⟩
    rintro p ⟨⟨k, rfl⟩, -⟩
    exact Nat.one_le_two_pow
  · rename_i hn
    have hpos : n - 1 ≠ 0 := by omega
    refine ⟨⟨⟨Nat.log2 (n - 1) + 1, Nat.pow_eq⟩, ?_⟩, ?_⟩
    · have := @Nat.lt_log2_self (n - 1)
      rw [Nat.pow_eq]
      omega
    · -- a power of two above `n - 1` has an exponent above `log2 (n - 1)`
      rintro p ⟨⟨k, rfl⟩, hk⟩
      rw [Nat.pow_eq]
      exact Nat.pow_le_pow_right (by decide) ((Nat.log2_lt hpos).2 (by omega))

/-- A power of two fits in a word exactly when it is at most `2 ^ 63`. -/
theorem pow_le_wordMax_iff (k : Nat) : 2 ^ k ≤ wordMax ↔ 2 ^ k ≤ 2 ^ 63 := by
  have hw : wordMax = 2 ^ 64 - 1 := rfl
  rw [hw, Nat.pow_le_pow_iff_right (by decide)]
  constructor
  · intro h
    have : 2 ^ k < 2 ^ 64 := by have := Nat.one_le_two_pow (n := 64); omega
    exact Nat.lt_succ_iff.1 ((Nat.pow_lt_pow_iff_right (by decide)).1 this)
  · intro h
    have := Nat.pow_le_pow_right (show 0 < 2 by decide) h
    have : (2 : Nat) ^ 63 < 2 ^ 64 := by decide
    omega

/-- Some power of two at or above `n` fits in a word exactly when `n ≤ 2 ^ 63`. -/
theorem exists_pow_fits_iff (n : Nat) :
    (∃ p, p.isPowerOfTwo ∧ n ≤ p ∧ p ≤ wordMax) ↔ n ≤ 2 ^ 63 := by
  constructor
  · rintro ⟨p, ⟨k, rfl⟩, hn, hp⟩
    exact hn.trans ((pow_le_wordMax_iff k).1 hp)
  · intro hn
    exact ⟨2 ^ 63, ⟨63, rfl⟩, hn, (pow_le_wordMax_iff 63).2 le_rfl⟩

namespace Builder

/-- When some power of two at or above twice the capacity (saturated at the
largest word) fits in a word, the default bucket count is the least one. -/
theorem defaultBuckets_of_fits {capacity : Nat}
    (h : ∃ p, p.isPowerOfTwo ∧ min (2 * capacity) wordMax ≤ p ∧ p ≤ wordMax) :
    IsLeast {p | p.isPowerOfTwo ∧ min (2 * capacity) wordMax ≤ p} (defaultBuckets capacity) := by
  have hfit := (exists_pow_fits_iff _).1 h
  unfold defaultBuckets
  rw [if_pos (by rw [Nat.pow_eq]; exact hfit)]
  exact isLeast_nextPowerOfTwo _

/-- When no such power fits, the default bucket count is the largest word. -/
theorem defaultBuckets_of_not_fits {capacity : Nat}
    (h : ¬∃ p, p.isPowerOfTwo ∧ min (2 * capacity) wordMax ≤ p ∧ p ≤ wordMax) :
    defaultBuckets capacity = wordMax := by
  rw [exists_pow_fits_iff] at h
  unfold defaultBuckets
  rw [if_neg (by rw [Nat.pow_eq]; exact h)]

/-- The default bucket count exceeds every capacity below the largest word. -/
theorem lt_defaultBuckets {capacity : Nat} (h : capacity < wordMax) :
    capacity < defaultBuckets capacity := by
  by_cases hfit : min (2 * capacity) wordMax ≤ 2 ^ 63
  · -- the least power of two at or above `min (2c) wordMax`, which is at least one
    have hleast := defaultBuckets_of_fits ((exists_pow_fits_iff _).2 hfit)
    obtain ⟨⟨k, hk⟩, hle⟩ := hleast.1
    have hone : 1 ≤ defaultBuckets capacity := hk ▸ Nat.one_le_two_pow
    omega
  · rw [defaultBuckets_of_not_fits (by rw [exists_pow_fits_iff]; exact hfit)]
    exact h

example : defaultBuckets 1000 = 2048 := by decide

end Builder

/-! ## Validation -/

namespace Table

variable {κ ν : Type}

/-- A table is built exactly from a geometry that meets the conditions in
unbounded arithmetic; otherwise the error names the first that fails. -/
theorem build_eq (c : Config) (h : Hasher) :
    (build c h : Except ConfigError (Table κ ν)) =
      if c.capacity = 0 then .error .zeroCapacity
      else if c.shards = 0 then .error .zeroShards
      else if c.buckets ≤ c.capacity then .error (.tooFewBuckets c.capacity c.buckets)
      else if c.capacity < c.shards then .error (.tooManyShards c.capacity c.shards)
      else if slotIdLimit < c.capacity + 2 * c.shards then
        .error (.slotIdsExhausted c.capacity c.shards)
      else .ok (create c h) := by
  unfold build
  rw [Config.validate_eq]
  split_ifs <;> rfl

end Table

/-! ## Partitions -/

namespace Config

variable {c : Config} {s r x : Nat}

/-- The partitions together are exactly the data slots. -/
theorem lt_capacity_iff_mem_partition (h0 : 0 < c.shards) :
    x < c.capacity ↔ ∃ s < c.shards, x ∈ c.partition s := by
  rw [← List.mem_range, ← flatMap_partition h0, List.mem_flatMap]
  simp only [List.mem_range]

/-- Each shard but the last owns one share, and the last owns the rest. -/
theorem quota_eq (hs : s < c.shards) :
    c.quota s = if s + 1 < c.shards then c.capacity / c.shards
      else c.capacity - (c.shards - 1) * (c.capacity / c.shards) := by
  split
  · rename_i hlt
    unfold quota partStart
    rw [partEnd_of_succ_lt hlt, Nat.succ_mul, Nat.add_sub_cancel_left]
    rfl
  · unfold quota partEnd partStart share
    rw [if_pos (by omega), show c.shards - 1 = s by omega]

/-! ## Ids -/

/-- The ids a table hands out are the first `capacity + 2·shards` words, data
slots first. -/
theorem arenaIds_eq (h0 : 0 < c.shards) :
    c.arenaIds = (List.range (c.capacity + 2 * c.shards)).map Nat.toUInt32 := by
  have hdata : (List.range c.shards).flatMap (fun s => (c.partition s).map Nat.toUInt32) =
      (List.range c.capacity).map Nat.toUInt32 := by
    rw [← flatMap_partition h0, List.map_flatMap]
  have happ := @List.range'_append_1 0 c.capacity (2 * c.shards)
  rw [Nat.zero_add] at happ
  unfold arenaIds
  rw [hdata, flatMap_ends, List.range_eq_range', List.range_eq_range', ← List.map_append, happ]

/-- An id below `listEnd` is none of the four reserved words. -/
theorem ne_reserved_of_lt {w : UInt32} (hw : w.toNat < listEnd.toNat) :
    w ≠ listEnd ∧ w ≠ locked ∧ w ≠ Word.free.encode ∧ w ≠ Word.locked.encode := by
  have hend : listEnd.toNat = 0xFFFFFFFE := rfl
  have hlocked : locked.toNat = 0xFFFFFFFF := rfl
  have hfree : Word.free.encode.toNat = 0xFFFFFFFF := rfl
  have hheld : Word.locked.encode.toNat = 0xFFFFFFFE := rfl
  refine ⟨?_, ?_, ?_, ?_⟩ <;> intro e <;> subst e <;> omega

section Valid

variable (hv : c.validate = .ok ())
include hv

theorem shards_pos : 0 < c.shards := (validate_eq_ok.1 hv).2.1

theorem capacity_add_le : c.capacity + 2 * c.shards ≤ slotIdLimit := (validate_eq_ok.1 hv).2.2.2.2

theorem toNat_lt_of_mem_arenaIds {w : UInt32} (hw : w ∈ c.arenaIds) :
    w.toNat < listEnd.toNat := by
  have hle := capacity_add_le hv
  rw [arenaIds_eq (shards_pos hv), List.mem_map] at hw
  obtain ⟨n, hn, rfl⟩ := hw
  rw [List.mem_range] at hn
  rw [toNat_toUInt32_of_le (by omega)]
  have : listEnd.toNat = slotIdLimit + 1 := rfl
  omega

/-- No id is handed out twice. -/
theorem arenaIds_nodup : c.arenaIds.Nodup := by
  have hle := capacity_add_le hv
  rw [arenaIds_eq (shards_pos hv)]
  refine List.Nodup.map_on ?_ List.nodup_range
  intro a ha b hb hab
  rw [List.mem_range] at ha hb
  rw [← toNat_toUInt32_of_le (n := a) (by omega), ← toNat_toUInt32_of_le (n := b) (by omega), hab]

/-- The bounds of a shard's partition survive the cast to a 32-bit word. -/
theorem toNat_partBounds (hs : s < c.shards) :
    (c.partStart s).toUInt32.toNat = c.partStart s ∧ (c.partEnd s).toUInt32.toNat = c.partEnd s := by
  have hle := capacity_add_le hv
  have hend := partEnd_le_capacity hs
  have hstart := partStart_le_partEnd hs
  exact ⟨toNat_toUInt32_of_le (by omega), toNat_toUInt32_of_le (by omega)⟩

/-- A shard's sentinels are `capacity + 2·s` and the next id: neither the cast
nor the increment wraps. -/
theorem toNat_ends (hs : s < c.shards) :
    (c.ends s).head.toNat = c.capacity + 2 * s ∧
      (c.ends s).tail.toNat = c.capacity + 2 * s + 1 :=
  toNat_ends_of_le (capacity_add_le hv) hs

end Valid

end Config

/-! ## What a valid geometry lays out -/

/-- The layout of the slots and sentinels of a valid geometry. -/
structure Config.Layout (c : Config) : Prop where
  partition_ne_nil : ∀ s < c.shards, c.partition s ≠ []
  partition_disjoint : ∀ s < c.shards, ∀ r < c.shards, s ≠ r →
    (c.partition s).Disjoint (c.partition r)
  mem_partition : ∀ x, x < c.capacity ↔ ∃ s < c.shards, x ∈ c.partition s
  quota_eq : ∀ s < c.shards, c.quota s = if s + 1 < c.shards then c.capacity / c.shards
    else c.capacity - (c.shards - 1) * (c.capacity / c.shards)
  /-- The bounds of every partition survive the cast to a 32-bit word. -/
  bounds_fit : ∀ s < c.shards,
    (c.partStart s).toUInt32.toNat = c.partStart s ∧ (c.partEnd s).toUInt32.toNat = c.partEnd s
  /-- The sentinels are `capacity + 2·s` and the id after it, with no wrap. -/
  ends_fit : ∀ s < c.shards,
    (c.ends s).head.toNat = c.capacity + 2 * s ∧ (c.ends s).tail.toNat = c.capacity + 2 * s + 1
  ids_nodup : c.arenaIds.Nodup
  ids_unreserved : ∀ w ∈ c.arenaIds, w.toNat < listEnd.toNat ∧
    w ≠ listEnd ∧ w ≠ locked ∧ w ≠ Word.free.encode ∧ w ≠ Word.locked.encode

namespace Config

variable {c : Config}

theorem layout_of_validate (hv : c.validate = .ok ()) : c.Layout := by
  refine ⟨fun s hs => ?_, fun s hs r hr => partition_disjoint hs hr,
    fun x => lt_capacity_iff_mem_partition (shards_pos hv), fun s hs => quota_eq hs,
    fun s hs => toNat_partBounds hv hs, fun s hs => toNat_ends hv hs, arenaIds_nodup hv,
    fun w hw => ?_⟩
  · -- every shard owns a slot
    rw [← List.length_pos_iff, length_partition]
    exact quota_pos hv hs
  · have hlt := toNat_lt_of_mem_arenaIds hv hw
    exact ⟨hlt, ne_reserved_of_lt hlt⟩

end Config

/-! ## Shard capacities -/

namespace Table

variable {κ ν : Type} [DecidableEq κ] [CacheKey κ] [DecidableEq ν]

/-- Every table a run reaches reports the size of a shard's partition as its
capacity. -/
theorem Reach.shardCapacity_eq {t : Table κ ν} {order : List Nat} (h : t.Reach order) {s : Nat}
    (hs : s < t.config.shards) : t.shardCapacity s = some (t.config.quota s) := by
  have hi := h.invariant_arranged.1
  have hlt : s < t.shards.size := hi.shards_size ▸ hs
  unfold shardCapacity
  rw [Array.getElem?_eq_getElem hlt, Option.map_some,
    hi.quota s _ (Array.getElem?_eq_getElem hlt)]

end Table

/-! ## The whole -/

/-- Building a table validates its geometry in unbounded arithmetic, in order;
the builder's default bucket count is the least power of two at or above twice
the capacity, or the largest word, and exceeds every capacity below it; and a
valid geometry lays its slots and sentinels out in distinct ids below the
reserved words, with every reachable table reporting the partition sizes as the
shards' capacities. -/
theorem build_checks_geometry {κ ν : Type} [DecidableEq κ] [CacheKey κ] [DecidableEq ν]
    (c : Config) (h : Hasher) :
    (Table.build c h : Except ConfigError (Table κ ν)) =
      (if c.capacity = 0 then .error .zeroCapacity
      else if c.shards = 0 then .error .zeroShards
      else if c.buckets ≤ c.capacity then .error (.tooFewBuckets c.capacity c.buckets)
      else if c.capacity < c.shards then .error (.tooManyShards c.capacity c.shards)
      else if slotIdLimit < c.capacity + 2 * c.shards then
        .error (.slotIdsExhausted c.capacity c.shards)
      else .ok (Table.create c h)) ∧
    (∀ capacity : Nat,
      ((∃ p, p.isPowerOfTwo ∧ min (2 * capacity) wordMax ≤ p ∧ p ≤ wordMax) →
        IsLeast {p | p.isPowerOfTwo ∧ min (2 * capacity) wordMax ≤ p}
          (Builder.defaultBuckets capacity)) ∧
      ((¬∃ p, p.isPowerOfTwo ∧ min (2 * capacity) wordMax ≤ p ∧ p ≤ wordMax) →
        Builder.defaultBuckets capacity = wordMax) ∧
      (capacity < wordMax → capacity < Builder.defaultBuckets capacity)) ∧
    (c.validate = .ok () → c.Layout ∧
      ∀ (t : Table κ ν) (order : List Nat), t.Reach order → t.config = c →
        ∀ s < c.shards, t.shardCapacity s = some (c.quota s)) := by
  refine ⟨Table.build_eq c h, fun capacity => ⟨Builder.defaultBuckets_of_fits,
    Builder.defaultBuckets_of_not_fits, Builder.lt_defaultBuckets⟩,
    fun hv => ⟨Config.layout_of_validate hv, ?_⟩⟩
  rintro t order hr rfl s hs
  exact hr.shardCapacity_eq hs

/-- Four slots, eight buckets and two shards make a valid geometry with its
layout, and the builder gives four slots more buckets than slots. -/
theorem build_checks_geometry_four_slots :
    Config.validate ⟨4, 8, 2⟩ = .ok () ∧ Config.Layout ⟨4, 8, 2⟩ ∧
      4 < Builder.defaultBuckets 4 :=
  have h := build_checks_geometry (κ := UInt64) (ν := UInt64) ⟨4, 8, 2⟩ .identity
  ⟨rfl, (h.2.2 rfl).1, (h.2.1 4).2.2 (by decide)⟩

end ShardCache
