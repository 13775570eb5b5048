import ShardCache.Proofs.Steps
/-!
# A fresh table

`Table.create` sets the shards up one after another (`Table.initShard`): it links the
shard's two sentinels into an empty list and pushes the shard's partition on its free list
from the highest slot down, so that the lowest slot ends on top. `Table.SetUp c n` is what
holds once the first `n` shards are set up: their sentinels face each other, each of their
partitions is a free chain from its lowest slot, every other pair is still detached, and
the shards after them have empty free lists. Setting up one more shard keeps it
(`SetUp.initShard`), so a fresh table has its whole arena formed.

Results:
* `Config.flatMap_partition`, `Config.partition_disjoint`: the partitions of the shards, one
  after another, are the data slots in order, and no two share a slot.
* `foldl_pushFree`: pushing slots on a free list, last first, puts them on top of its chain.
* `linked_create`: a fresh table of a valid geometry is linked, with empty recency lists and
  every partition on its shard's free list.
* `invariant_create`: it keeps the structural invariant, and its index is the layout of no
  entries.
-/
namespace ShardCache

namespace Config

variable {c : Config} {s r x : Nat}

/-- The partitions of the first `n` shards, for `n` short of the last, are
the first `n` shares of slots. -/
theorem flatMap_partition_of_lt {n : Nat} (hn : n < c.shards) :
    (List.range n).flatMap c.partition = List.range' 0 (n * c.share) := by
  induction n with
  | zero => simp
  | succ n ih =>
    have hq : c.partition n = List.range' (n * c.share) c.share := by
      unfold partition quota partEnd partStart
      rw [if_neg (by omega), Nat.succ_mul, Nat.add_sub_cancel_left]
    have happ := @List.range'_append_1 0 (n * c.share) c.share
    rw [Nat.zero_add] at happ
    rw [List.range_succ, List.flatMap_append, List.flatMap_singleton, ih (by omega), hq, happ,
      Nat.succ_mul]

/-- The partitions of the shards, one after another, are the slots in
order. -/
theorem flatMap_partition (h0 : 0 < c.shards) :
    (List.range c.shards).flatMap c.partition = List.range c.capacity := by
  obtain ⟨n, hn⟩ : ∃ n, c.shards = n + 1 := ⟨c.shards - 1, by omega⟩
  have hshare : n * c.share ≤ c.capacity := by
    have := Nat.mul_div_le c.capacity c.shards
    have : n * c.share ≤ c.shards * c.share := Nat.mul_le_mul_right _ (by omega)
    unfold share at *
    omega
  have hlast : c.partition n = List.range' (n * c.share) (c.capacity - n * c.share) := by
    unfold partition quota partEnd partStart
    rw [if_pos hn.symm]
  have happ := @List.range'_append_1 0 (n * c.share) (c.capacity - n * c.share)
  rw [Nat.zero_add, Nat.add_sub_cancel' hshare] at happ
  rw [hn, List.range_succ, List.flatMap_append, List.flatMap_singleton,
    flatMap_partition_of_lt (by omega), hlast, happ, List.range_eq_range']

theorem mem_partition : x ∈ c.partition s ↔ c.partStart s ≤ x ∧ x < c.partEnd s := by
  unfold partition quota
  rw [List.mem_range'_1]
  omega

/-- Every shard but the last ends one share after it starts. -/
theorem partEnd_of_succ_lt (hs : s + 1 < c.shards) : c.partEnd s = (s + 1) * c.share := by
  unfold partEnd
  rw [if_neg (by omega)]

theorem partEnd_le_partStart (hsr : s < r) (hr : r < c.shards) : c.partEnd s ≤ c.partStart r := by
  rw [partEnd_of_succ_lt (by omega)]
  exact Nat.mul_le_mul_right _ hsr

/-- The shares of all shards fit in the capacity. -/
theorem shards_mul_share_le : c.shards * c.share ≤ c.capacity := by
  unfold share
  rw [Nat.mul_comm]
  exact Nat.div_mul_le_self c.capacity c.shards

theorem partEnd_le_capacity (hs : s < c.shards) : c.partEnd s ≤ c.capacity := by
  unfold partEnd
  split
  · exact le_rfl
  · exact (Nat.mul_le_mul_right _ hs).trans shards_mul_share_le

theorem partStart_le_partEnd (hs : s < c.shards) : c.partStart s ≤ c.partEnd s := by
  by_cases hlast : s + 1 = c.shards
  · unfold partEnd partStart
    rw [if_pos hlast]
    exact (Nat.mul_le_mul_right _ (Nat.le_of_lt hs)).trans shards_mul_share_le
  · rw [partEnd_of_succ_lt (by omega)]
    exact Nat.mul_le_mul_right _ (Nat.le_succ s)

/-- Two shards own no slot in common. -/
theorem partition_disjoint (hs : s < c.shards) (hr : r < c.shards) (hne : s ≠ r) :
    (c.partition s).Disjoint (c.partition r) := by
  -- the earlier partition ends before the later one starts
  have key : ∀ {a b}, a < b → b < c.shards → ∀ y, y ∈ c.partition a → y ∉ c.partition b := by
    intro a b hab hb y ha hb'
    have := partEnd_le_partStart hab hb
    rw [mem_partition] at ha hb'
    omega
  intro y hys hyr
  rcases Nat.lt_or_gt_of_ne hne with hlt | hgt
  · exact key hlt hr y hys hyr
  · exact key hgt hs y hyr hys

/-- A slot of a shard's partition is a data slot. -/
theorem lt_capacity_of_mem_partition (hs : s < c.shards) (hx : x ∈ c.partition s) : x < c.capacity :=
  Nat.lt_of_lt_of_le (mem_partition.1 hx).2 (partEnd_le_capacity hs)

/-- The sentinels of the first `n` shards are the `2·n` ids after the data
slots, in order. -/
theorem flatMap_ends (c : Config) (n : Nat) :
    (List.range n).flatMap (fun s => [(c.ends s).head, (c.ends s).tail]) =
      (List.range' c.capacity (2 * n)).map Nat.toUInt32 := by
  induction n with
  | zero => rfl
  | succ n ih =>
    have htail : (c.ends n).tail = (c.capacity + 2 * n + 1).toUInt32 := by
      simp only [ends, Nat.toUInt32_eq, UInt32.ofNat_add, UInt32.ofNat_one]
    rw [List.range_succ, List.flatMap_append, ih, List.flatMap_singleton, htail,
      show 2 * (n + 1) = 2 * n + 2 by omega, ← List.range'_append_1, List.map_append]
    simp [ends, List.range'_succ, Nat.add_assoc]

section Ids

variable (hle : c.capacity + 2 * c.shards ≤ slotIdLimit)
include hle

/-- The slots of a partition keep their value as 32-bit words, so no two share a word. -/
theorem nodup_map_partition (hs : s < c.shards) : ((c.partition s).map Nat.toUInt32).Nodup := by
  refine List.Nodup.map_on (fun a ha b hb hab => ?_) (List.nodup_range' ..)
  have := lt_capacity_of_mem_partition hs ha
  have := lt_capacity_of_mem_partition hs hb
  exact toUInt32_inj_of_le (by omega) (by omega) hab

/-- No word of a slot of shard `s`'s partition is a word of a slot of another shard's. -/
theorem toUInt32_not_mem_partition (hs : s < c.shards) (hr : r < c.shards) (hne : s ≠ r)
    (hx : x ∈ c.partition s) : x.toUInt32 ∉ (c.partition r).map Nat.toUInt32 := by
  intro hm
  obtain ⟨z, hz, hzx⟩ := List.mem_map.1 hm
  have := lt_capacity_of_mem_partition hs hx
  have := lt_capacity_of_mem_partition hr hz
  rw [toUInt32_inj_of_le (by omega) (by omega) hzx] at hz
  exact partition_disjoint hs hr hne hx hz

/-- No sentinel is the word of a data slot. -/
theorem ends_not_mem_partition (hs : s < c.shards) (hr : r < c.shards) :
    (c.ends s).head ∉ (c.partition r).map Nat.toUInt32 ∧
      (c.ends s).tail ∉ (c.partition r).map Nat.toUInt32 := by
  constructor <;> intro hm <;> obtain ⟨z, hz, hzx⟩ := List.mem_map.1 hm
  · exact (toUInt32_ne_ends hle hs (lt_capacity_of_mem_partition hr hz)).1 hzx
  · exact (toUInt32_ne_ends hle hs (lt_capacity_of_mem_partition hr hz)).2 hzx

/-- The sentinels of two shards are four ids, and the head and tail of one are two. -/
theorem ends_ne (hs : s < c.shards) (hr : r < c.shards) (hne : s ≠ r) :
    (c.ends s).head ≠ (c.ends r).head ∧ (c.ends s).head ≠ (c.ends r).tail ∧
      (c.ends s).tail ≠ (c.ends r).head ∧ (c.ends s).tail ≠ (c.ends r).tail := by
  have hs' := toNat_ends_of_le hle hs
  have hr' := toNat_ends_of_le hle hr
  refine ⟨?_, ?_, ?_, ?_⟩ <;> intro h <;> have := congrArg UInt32.toNat h <;> omega

theorem head_ne_tail (hs : s < c.shards) : (c.ends s).head ≠ (c.ends s).tail := by
  have := toNat_ends_of_le hle hs
  intro h
  have := congrArg UInt32.toNat h
  omega

end Ids

end Config

namespace Table

variable {κ ν : Type}

open Relink

/-! ## Pushing slots on a free list -/

section Push

variable {t : Table κ ν}

@[simp] theorem size_links_pushFree (t : Table κ ν) (s slot : Nat) :
    (t.pushFree s slot).links.size = t.links.size := by
  unfold pushFree
  split <;> simp

theorem size_links_foldl_pushFree (s : Nat) (xs : List Nat) (t : Table κ ν) :
    (xs.foldl (fun t slot => t.pushFree s slot) t).links.size = t.links.size := by
  induction xs generalizing t with
  | nil => rfl
  | cons x xs ih => rw [List.foldl_cons, ih, size_links_pushFree]

/-- Pushing the slots `xs`, last first, on shard `s`'s free list puts them on top of its free
chain in the order of `xs`, and leaves every other pair. -/
theorem foldl_pushFree {s : Nat} {sh : Shard} (hsh : t.shards[s]? = some sh) :
    ∀ xs : List Nat, (∀ x ∈ xs, x.toUInt32.toNat < t.links.size) → (xs.map Nat.toUInt32).Nodup →
      FreeChain t.linkOf sh.freeHead sh.free → (∀ x ∈ xs, ∀ z ∈ sh.free, x.toUInt32 ≠ z.toUInt32) →
      FreeChain (xs.reverse.foldl (fun t slot => t.pushFree s slot) t).linkOf
          ((xs.head?.map Nat.toUInt32).getD sh.freeHead) (xs ++ sh.free) ∧
        ∀ y, y ∉ xs.map Nat.toUInt32 →
          (xs.reverse.foldl (fun t slot => t.pushFree s slot) t).linkOf y = t.linkOf y
  | [], _, _, hchain, _ => ⟨hchain, fun _ _ => rfl⟩
  | x :: rest, hb, hnd, hchain, hout => by
    rw [List.map_cons, List.nodup_cons] at hnd
    obtain ⟨hc₁, hf₁⟩ := foldl_pushFree hsh rest (fun y hy => hb y (List.mem_cons_of_mem _ hy)) hnd.2
      hchain (fun y hy => hout y (List.mem_cons_of_mem _ hy))
    set t₁ := rest.reverse.foldl (fun t slot => t.pushFree s slot) t
    -- the last push is of `x`, on top of the slots of `rest`
    have hsh₁ : t₁.shards[s]? = some (rest.reverse.foldl Shard.pushFree sh) := by
      rw [shards_foldl_pushFree, Array.getElem?_modify, if_pos rfl, hsh]
      rfl
    have hbx : x.toUInt32.toNat < t₁.links.size := by
      rw [size_links_foldl_pushFree]
      exact hb x List.mem_cons_self
    have hlink : (t₁.pushFree s x).linkOf = setLink t₁.linkOf x.toUInt32
        ⟨listEnd, (rest.head?.map Nat.toUInt32).getD sh.freeHead⟩ := by
      rw [pushFree, hsh₁]
      simp only
      rw [linkOf_modifyShard, linkOf_setLinks _ hbx, Shard.foldl_pushFree]
    have ht : (x :: rest).reverse.foldl (fun t slot => t.pushFree s slot) t = t₁.pushFree s x := by
      rw [List.reverse_cons, List.foldl_append]
      rfl
    rw [ht, hlink]
    refine ⟨?_, fun y hy => ?_⟩
    · -- `x` marks no predecessor and leads to the old top
      simp only [List.head?_cons, Option.map_some, Option.getD_some, List.cons_append]
      refine .cons (by rw [setLink_self]) ?_
      rw [setLink_self]
      refine hc₁.frame fun z hz => setLink_of_ne _ _ fun hzx => ?_
      rcases List.mem_append.1 hz with hz | hz
      · exact hnd.1 (hzx ▸ List.mem_map_of_mem hz)
      · exact hout x List.mem_cons_self z hz hzx.symm
    · rw [List.map_cons, List.mem_cons, not_or] at hy
      rw [setLink_of_ne _ _ hy.1, hf₁ y hy.2]

end Push

/-! ## Setting the shards up -/

/-- The table once the first `n` shards of the geometry `c` are set up: their sentinels face
each other, each of their partitions is a free chain from its lowest slot, every other pair
is detached, and the shards after them have empty free lists. -/
structure SetUp (c : Config) (n : Nat) (t : Table κ ν) : Prop where
  config : t.config = c
  size : t.links.size = c.capacity + 2 * c.shards
  ends : ∀ s < n, t.linkOf (c.ends s).head = ⟨listEnd, (c.ends s).tail⟩ ∧
    t.linkOf (c.ends s).tail = ⟨(c.ends s).head, listEnd⟩
  free : ∀ s < n,
    FreeChain t.linkOf (((c.partition s).head?.map Nat.toUInt32).getD listEnd) (c.partition s)
  rest : ∀ y, (∀ s < n, y ≠ (c.ends s).head ∧ y ≠ (c.ends s).tail ∧
    y ∉ (c.partition s).map Nat.toUInt32) → t.linkOf y = Link.detached
  blank : ∀ j, n ≤ j → j < c.shards → ∃ sh, t.shards[j]? = some sh ∧ sh.freeHead = listEnd ∧
    sh.free = []

theorem setUp_blank (c : Config) (h : Hasher) : SetUp c 0 (blank c h : Table κ ν) where
  config := rfl
  size := Array.size_replicate
  ends _ hs := absurd hs (Nat.not_lt_zero _)
  free _ hs := absurd hs (Nat.not_lt_zero _)
  rest y _ := by
    simp only [linkOf, blank, Array.getElem?_replicate]
    split <;> rfl
  blank j _ hj := ⟨Shard.blank c j, by simp [blank, hj], rfl, rfl⟩

section Shard

variable {c : Config} {n : Nat} {t : Table κ ν}

/-- Setting up shard `n` writes its two sentinels and the pairs of its partition, which
becomes a free chain from its lowest slot, and no other pair. -/
theorem linkOf_initShard (hle : c.capacity + 2 * c.shards ≤ slotIdLimit) (hc : t.config = c)
    (hsize : t.links.size = c.capacity + 2 * c.shards) (hn : n < c.shards) {sh : Shard}
    (hsh : t.shards[n]? = some sh) (hhead : sh.freeHead = listEnd) (hfree : sh.free = []) :
    (t.initShard n).linkOf (c.ends n).head = ⟨listEnd, (c.ends n).tail⟩ ∧
      (t.initShard n).linkOf (c.ends n).tail = ⟨(c.ends n).head, listEnd⟩ ∧
      FreeChain (t.initShard n).linkOf (((c.partition n).head?.map Nat.toUInt32).getD listEnd)
        (c.partition n) ∧
      ∀ y, y ≠ (c.ends n).head → y ≠ (c.ends n).tail → y ∉ (c.partition n).map Nat.toUInt32 →
        (t.initShard n).linkOf y = t.linkOf y := by
  obtain ⟨hH, hT⟩ := Config.toNat_ends_of_le hle hn
  have hends : t.ends n = c.ends n := by rw [ends, hc]
  have hHb : (c.ends n).head.toNat < t.links.size := by omega
  have hTb : (c.ends n).tail.toNat < t.links.size := by omega
  set H := (c.ends n).head
  set T := (c.ends n).tail
  have hHT : H ≠ T := Config.head_ne_tail hle hn
  have hlink₁ : (t.initList (c.ends n)).linkOf =
      setLink (setLink t.linkOf H ⟨listEnd, T⟩) T ⟨H, listEnd⟩ := by
    rw [initList, linkOf_setLinks _ (by rw [size_links_setLinks]; exact hTb),
      linkOf_setLinks _ hHb]
  set t₁ := t.initList (c.ends n)
  have hsh₁ : t₁.shards[n]? = some sh := hsh
  have hsize₁ : t₁.links.size = t.links.size := by simp [t₁, initList]
  -- the partition's slots are data slots: their words are not the sentinels
  have hdata := Config.ends_not_mem_partition hle hn hn
  obtain ⟨hchain, hframe⟩ := foldl_pushFree hsh₁ (c.partition n)
    (fun x hx => by
      have := Config.lt_capacity_of_mem_partition hn hx
      rw [hsize₁, Config.toNat_toUInt32_of_le (by omega)]
      omega)
    (Config.nodup_map_partition hle hn) (by rw [hhead, hfree]; exact .nil)
    (by rw [hfree]; exact fun _ _ _ hz => absurd hz List.not_mem_nil)
  have hinit : (t.initShard n).linkOf =
      ((c.partition n).reverse.foldl (fun t slot => t.pushFree n slot) t₁).linkOf := by
    rw [initShard, hends, hc]
    rfl
  rw [hhead, hfree, List.append_nil] at hchain
  refine ⟨?_, ?_, hinit ▸ hchain, fun y hyH hyT hyP => ?_⟩
  · rw [hinit, hframe H hdata.1, hlink₁, setLink_of_ne _ _ hHT, setLink_self]
  · rw [hinit, hframe T hdata.2, hlink₁, setLink_self]
  · rw [hinit, hframe y hyP, hlink₁, setLink_of_ne _ _ hyT, setLink_of_ne _ _ hyH]

/-- Setting up one more shard keeps the setup of the ones before it. -/
theorem SetUp.initShard (hle : c.capacity + 2 * c.shards ≤ slotIdLimit) (hs : SetUp c n t)
    (hn : n < c.shards) : SetUp c (n + 1) (t.initShard n) := by
  obtain ⟨sh, hsh, hhead, hfree⟩ := hs.blank n (Nat.le_refl n) hn
  obtain ⟨hH, hT, hchain, hkeep⟩ := linkOf_initShard hle hs.config hs.size hn hsh hhead hfree
  -- a pair of an earlier shard is none of the pairs shard `n` writes
  have hold : ∀ r < n, ∀ y, (y = (c.ends r).head ∨ y = (c.ends r).tail ∨
      y ∈ (c.partition r).map Nat.toUInt32) → (t.initShard n).linkOf y = t.linkOf y := by
    intro r hr y hy
    have hr' : r < c.shards := by omega
    obtain ⟨h1, h2, h3, h4⟩ := Config.ends_ne hle hr' hn (by omega)
    have hd := Config.ends_not_mem_partition hle hr' hn
    have hd' := Config.ends_not_mem_partition hle hn hr'
    rcases hy with rfl | rfl | hy
    · exact hkeep _ h1 h2 hd.1
    · exact hkeep _ h3 h4 hd.2
    · obtain ⟨x, hx, rfl⟩ := List.mem_map.1 hy
      exact hkeep _ (fun e => hd'.1 (e ▸ hy)) (fun e => hd'.2 (e ▸ hy))
        (Config.toUInt32_not_mem_partition hle hr' hn (by omega) hx)
  obtain ⟨links, shards, heq⟩ := initShard_eq t n
  refine ⟨by rw [heq]; exact hs.config, ?_, fun r hr => ?_, fun r hr => ?_, fun y hy => ?_,
    fun j hj hjc => ?_⟩
  · have : (t.initShard n).links.size = t.links.size := by
      rw [Table.initShard]
      simp only [links_modifyShard, size_links_foldl_pushFree, initList, size_links_setLinks]
    rw [this, hs.size]
  · rcases Nat.lt_succ_iff_lt_or_eq.1 hr with hr | rfl
    · rw [hold r hr _ (.inl rfl), hold r hr _ (.inr (.inl rfl))]
      exact hs.ends r hr
    · exact ⟨hH, hT⟩
  · rcases Nat.lt_succ_iff_lt_or_eq.1 hr with hr | rfl
    · exact (hs.free r hr).frame fun x hx => hold r hr _ (.inr (.inr (List.mem_map_of_mem hx)))
    · exact hchain
  · obtain ⟨hyH, hyT, hyP⟩ := hy n (Nat.lt_succ_self n)
    rw [hkeep y hyH hyT hyP]
    exact hs.rest y fun r hr => hy r (by omega)
  · obtain ⟨sh', hsh', h'⟩ := hs.blank j (by omega) hjc
    refine ⟨sh', ?_, h'⟩
    rw [shards_initShard, Array.getElem?_modify, if_neg (by omega)]
    exact hsh'

end Shard

/-- The first `n` shards of a table being built from a geometry whose ids fit are set up. -/
theorem setUp_foldl {c : Config} (h : Hasher) (hle : c.capacity + 2 * c.shards ≤ slotIdLimit) :
    ∀ n ≤ c.shards, SetUp c n ((List.range n).foldl initShard (blank c h : Table κ ν))
  | 0, _ => setUp_blank c h
  | n + 1, hn => by
    rw [List.range_succ, List.foldl_append, List.foldl_cons, List.foldl_nil]
    exact (setUp_foldl h hle n (by omega)).initShard hle (by omega)

/-! ## The fresh table -/

section Create

variable {c : Config} {h : Hasher}

theorem getElem?_shards_create (s : Nat) :
    (create c h : Table κ ν).shards[s]? = if s < c.shards then some (Shard.initial c s) else none := by
  rw [shards_create, Array.getElem?_map, Array.getElem?_range]
  split <;> rfl

theorem entry?_create (slot : Nat) : Table.entry? (create c h : Table κ ν) slot = none := by
  simp only [Table.entry?, slots_create, Array.getElem?_replicate]
  split <;> rfl

theorem slots_empty (n : Nat) : (Index.empty n).slots = [] := by
  rw [Index.slots_eq]
  simp

theorem pool_create : (create c h : Table κ ν).pool = (List.range c.shards).flatMap c.partition := by
  simp [pool, shards_create, Array.toList_map, Array.toList_range, List.flatMap_map, Shard.initial]

theorem listed_create : (create c h : Table κ ν).listed = [] := by
  simp [listed, shards_create, Array.toList_map, Array.toList_range, List.flatMap_map, Shard.initial]

/-- The recency lists of a fresh table are empty, each between two sentinels that face each
other: no two sentinels share an id, and none is a reserved word. -/
theorem formed_create (hle : c.capacity + 2 * c.shards ≤ slotIdLimit) :
    Formed (create c h : Table κ ν).lists (create c h : Table κ ν).linkOf fun _ => [] := by
  have hs := setUp_foldl (κ := κ) (ν := ν) h hle c.shards (Nat.le_refl _)
  rw [← create] at hs
  have hends : ∀ s, (create c h : Table κ ν).ends s = c.ends s := fun s => by rw [ends, config_create]
  have hnodes : nodes (create c h : Table κ ν).lists (fun _ => []) =
      (List.range' c.capacity (2 * c.shards)).map Nat.toUInt32 := by
    rw [← Config.flatMap_ends, nodes, lists, List.flatMap_map, config_create]
    simp [hends, Ends.chain]
  have hlt : ∀ y ∈ nodes (create c h : Table κ ν).lists (fun _ => []), y.toNat ≤ slotIdLimit := by
    intro y hy
    rw [hnodes] at hy
    obtain ⟨m, hm, rfl⟩ := List.mem_map.1 hy
    rw [List.mem_range'_1] at hm
    rw [Config.toNat_toUInt32_of_le (by omega)]
    omega
  refine ⟨fun e he => ?_, ?_, fun y hy => Config.toNat_lt_listEnd (hlt y hy), fun y hy => ?_⟩
  · obtain ⟨s, hs', rfl⟩ := mem_lists.1 he
    rw [config_create] at hs'
    obtain ⟨hH, hT⟩ := hs.ends s hs'
    rw [hends, hH, hT, chain_eq]
    exact ⟨rfl, rfl, List.isChain_pair.2 ⟨by rw [hH], by rw [hT]⟩⟩
  · rw [hnodes]
    refine List.Nodup.map_on (fun a ha b hb hab => ?_) (List.nodup_range' ..)
    rw [List.mem_range'_1] at ha hb
    exact Config.toUInt32_inj_of_le (by omega) (by omega) hab
  · -- outside the lists: a slot of some partition, on its free chain, or detached
    by_cases hp : ∃ s < c.shards, y ∈ (c.partition s).map Nat.toUInt32
    · obtain ⟨s, hs', hyp⟩ := hp
      obtain ⟨x, hx, rfl⟩ := List.mem_map.1 hyp
      have hxl : x ≤ slotIdLimit := by
        have := Config.lt_capacity_of_mem_partition hs' hx
        omega
      have hchain := hs.free s hs'
      refine ⟨by simp [Link.touchesEnd, hchain.pred_eq x hx], Link.hasLockedSide_eq_false.2
        ⟨by rw [hchain.pred_eq x hx]; exact Link.listEnd_ne_locked,
          hchain.succ_ne_locked (fun z hz => ?_) x hx⟩⟩
      have := Config.lt_capacity_of_mem_partition hs' hz
      omega
    · rw [hs.rest y fun s hs' => ?_]
      · exact ⟨by simp [Link.touchesEnd, Link.detached], by simp [Link.hasLockedSide, Link.detached,
          Link.listEnd_ne_locked]⟩
      refine ⟨fun e => hy ?_, fun e => hy ?_, fun hm => hp ⟨s, hs', hm⟩⟩
      · rw [hnodes, e, ← Config.flatMap_ends, List.mem_flatMap]
        exact ⟨s, List.mem_range.2 hs', by simp⟩
      · rw [hnodes, e, ← Config.flatMap_ends, List.mem_flatMap]
        exact ⟨s, List.mem_range.2 hs', by simp⟩

/-- A fresh table of a valid geometry is linked: its recency lists are empty, and each shard's
partition is its free list, lowest slot on top, counted in full. -/
theorem linked_create (hv : c.validate = .ok ()) : (create c h : Table κ ν).Linked := by
  have hle := (Config.validate_eq_ok.1 hv).2.2.2.2
  have hs := setUp_foldl (κ := κ) (ν := ν) h hle c.shards (Nat.le_refl _)
  rw [← create] at hs
  have hshard : ∀ s sh, (create c h : Table κ ν).shards[s]? = some sh →
      s < c.shards ∧ sh = Shard.initial c s := by
    intro s sh hsh
    rw [getElem?_shards_create] at hsh
    split at hsh
    · exact ⟨‹_›, (Option.some.inj hsh).symm⟩
    · cases hsh
  refine ⟨by rw [hs.size, config_create], ⟨fun _ => [], formed_create hle, fun s sh hsh => ?_⟩,
    fun s sh hsh => ?_, fun s sh hsh => ?_, fun x hx => ?_⟩
  · rw [(hshard s sh hsh).2]
    rfl
  · obtain ⟨hs', rfl⟩ := hshard s sh hsh
    exact hs.free s hs'
  · obtain ⟨-, rfl⟩ := hshard s sh hsh
    simp [Shard.initial]
  · rw [spare_create] at hx
    cases hx

/-- A fresh table of a valid geometry keeps the invariant, and its index is
the layout of no entries. -/
theorem invariant_create [CacheKey κ] (hv : c.validate = .ok ()) :
    (create c h : Table κ ν).Invariant ∧
      (create c h : Table κ ν).index.Arranged (create c h : Table κ ν).homeOf [] := by
  have hc := Config.validate_eq_ok.1 hv
  have hshard : ∀ s sh, (create c h : Table κ ν).shards[s]? = some sh → sh = Shard.initial c s := by
    intro s sh hs
    rw [getElem?_shards_create] at hs
    split at hs
    · exact (Option.some.inj hs).symm
    · cases hs
  refine ⟨{
    valid := by rw [config_create]; exact hv
    slots_size := by simp
    index_size := by simp
    shards_size := by simp [shards_create]
    registered_le := by simp
    quota := ?_
    free_le := ?_
    idle := ?_
    pool := ?_
    linked := linked_create hv
    listed := ?_
    entry_iff := ?_
    hash := ?_
    key_inj := ?_
    distinct := ?_
    reachable := ?_
    len := ?_ }, ?_⟩
  · intro s sh hs
    rw [hshard s sh hs, config_create]
    rfl
  · intro s sh hs
    rw [hshard s sh hs]
    simp [Shard.initial]
  · intro s sh hs
    rw [hshard s sh hs]
    rfl
  · rw [pool_create, Config.flatMap_partition hc.2.1, config_create]
  · rw [listed_create, index_create, slots_empty]
  · intro slot
    simp [entry?_create, slots_empty]
  · intro slot e he
    rw [entry?_create] at he
    cases he
  · intro a b ea eb hea
    rw [entry?_create] at hea
    cases hea
  · intro p q slot hp
    simp at hp
  · intro pos slot hp
    simp at hp
  · rw [len_create, index_create, slots_empty]
    rfl
  · rw [index_create]
    exact Index.arranged_empty _ _

end Create

end Table

end ShardCache
