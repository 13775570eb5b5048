import ShardCache.Index
import ShardCache.Key
import ShardCache.Shard
import ShardCache.Metrics.Counters
/-!
# Tables

A `Table κ ν` holds up to `capacity` entries with keys of type `κ` and
values of type `ν`:

* `slots`: the arena; slot `i` holds an entry or nothing. An entry keeps the
  hash of its key, so that it can be found again without the key's hasher.
* `links`: the link pair of every slot id, the `capacity` data slots first
  and then the head and tail sentinels of each shard (`Config.ends`). The
  recency lists and the free lists are threaded through them.
* `index`: the bucket index, from which lookups start.
* `shards`: the registers of each shard and its probe run (`ShardCache.Shard`).
* `spare`: the shared pool of slots released beyond a shard's quota, a stack
  whose top is the head.
* `len`: the number of entries; `registered`: how many shards have a handle;
  `counters`: the events counted so far.

A fresh table (`Table.create`) is empty: each shard's sentinels are linked
into an empty list (`initList`) and its partition is pushed on its free list,
highest slot first (`pushFree`), so that the lowest slot is on top.
`Table.build` checks the geometry first. `Table.register` hands out the next
shard, until every shard has one.
-/
namespace ShardCache

/-- An entry of the arena: a key, its value and the hash of its key.
mirrors src/src/ds/slot_arena.rs:100-109 -/
structure Entry (κ ν : Type) where
  key : κ
  value : ν
  hash : UInt64
deriving DecidableEq, Repr

/-- A sharded table with least-recently-used eviction.
mirrors src/src/policy/lru.rs:166-176 -/
structure Table (κ ν : Type) where
  config : Config
  hasher : Hasher
  slots : Array (Option (Entry κ ν))
  links : Array Link
  index : Index
  shards : Array Shard
  spare : List Nat
  len : Nat
  registered : Nat
  counters : Counters

namespace Table

variable {κ ν : Type}

/-- The sentinels of shard `s`'s recency list.
mirrors src/src/ds/shard.rs:83-96 -/
def ends (t : Table κ ν) (s : Nat) : Relink.Ends := t.config.ends s

/-- The link pair of an id; an id outside the arena reads as detached.
mirrors src/src/ds/slot_arena.rs:80-83 -/
def linkOf (t : Table κ ν) (y : UInt32) : Link := (t.links[y.toNat]?).getD Link.detached

/-- Stores the link pair of an id.
mirrors src/src/ds/slot_arena.rs:85-88 -/
def setLinks (t : Table κ ν) (y : UInt32) (w : Link) : Table κ ν :=
  { t with links := t.links.setIfInBounds y.toNat w }

/-- Changes shard `s`. -/
def modifyShard (t : Table κ ν) (s : Nat) (f : Shard → Shard) : Table κ ν :=
  { t with shards := t.shards.modify s f }

/-- Links a pair of sentinels into an empty list.
mirrors src/src/ds/intrusive_list.rs:59-63 -/
def initList (t : Table κ ν) (e : Relink.Ends) : Table κ ν :=
  (t.setLinks e.head ⟨listEnd, e.tail⟩).setLinks e.tail ⟨e.head, listEnd⟩

/-- Pushes a slot on shard `s`'s free list: its pair marks no predecessor and leads to the
old head, and it becomes the head. The count of free slots is the caller's.
mirrors src/src/ds/intrusive_list.rs:122-127 -/
def pushFree (t : Table κ ν) (s slot : Nat) : Table κ ν :=
  match t.shards[s]? with
  | some sh => (t.setLinks slot.toUInt32 ⟨listEnd, sh.freeHead⟩).modifyShard s (·.pushFree slot)
  | none => t

/-- Sets up shard `s` of a table being built: its empty list, its partition pushed on its
free list from the highest slot down, and the count of free slots.
mirrors src/src/policy/lru.rs:226-232 -/
def initShard (t : Table κ ν) (s : Nat) : Table κ ν :=
  let t' := t.initList (t.ends s)
  let t' := (t.config.partition s).reverse.foldl (fun t slot => t.pushFree s slot) t'
  t'.modifyShard s fun sh => { sh with freeLen := sh.quota }

/-- A table of the given geometry whose every pair is detached, before its shards are set up.
mirrors src/src/policy/lru.rs:222-225 -/
def blank (c : Config) (h : Hasher) : Table κ ν where
  config := c
  hasher := h
  slots := Array.replicate c.capacity none
  links := Array.replicate (c.capacity + 2 * c.shards) Link.detached
  index := Index.empty c.buckets
  shards := (Array.range c.shards).map (Shard.blank c)
  spare := []
  len := 0
  registered := 0
  counters := {}

/-- An empty table of the given geometry.
mirrors src/src/policy/lru.rs:214-253 -/
def create (c : Config) (h : Hasher) : Table κ ν :=
  (List.range c.shards).foldl initShard (blank c h)

/-- An empty table, if the geometry is valid.
mirrors src/src/policy/lru.rs:195-201 and src/src/policy/lru.rs:214-221 -/
def build (c : Config) (h : Hasher) : Except ConfigError (Table κ ν) :=
  match c.validate with
  | .ok () => .ok (create c h)
  | .error e => .error e

/-! ### What setting up a table changes -/

/-- Changing one element twice is changing it once by the composite. -/
theorem Array.modify_modify_of_eq {α : Type} (xs : Array α) (s : Nat) (f g : α → α) :
    (xs.modify s f).modify s g = xs.modify s (g ∘ f) := by
  apply Array.ext_getElem?
  intro j
  simp only [Array.getElem?_modify]
  split <;> simp_all [Option.map_map]

/-- Changing an element that is not there changes nothing. -/
theorem Array.modify_of_size_le {α : Type} {xs : Array α} {s : Nat} (f : α → α) (hs : xs.size ≤ s) :
    xs.modify s f = xs := by
  apply Array.ext_getElem?
  intro j
  simp only [Array.getElem?_modify]
  split
  · rename_i h
    subst h
    simp [Array.getElem?_eq_none hs]
  · rfl

section Fields

variable (t : Table κ ν) (y : UInt32) (w : Link) (s : Nat) (f : Shard → Shard)

@[simp] theorem config_setLinks : (t.setLinks y w).config = t.config := rfl
@[simp] theorem hasher_setLinks : (t.setLinks y w).hasher = t.hasher := rfl
@[simp] theorem slots_setLinks : (t.setLinks y w).slots = t.slots := rfl
@[simp] theorem links_setLinks : (t.setLinks y w).links = t.links.setIfInBounds y.toNat w := rfl
@[simp] theorem index_setLinks : (t.setLinks y w).index = t.index := rfl
@[simp] theorem shards_setLinks : (t.setLinks y w).shards = t.shards := rfl
@[simp] theorem spare_setLinks : (t.setLinks y w).spare = t.spare := rfl
@[simp] theorem len_setLinks : (t.setLinks y w).len = t.len := rfl
@[simp] theorem registered_setLinks : (t.setLinks y w).registered = t.registered := rfl
@[simp] theorem counters_setLinks : (t.setLinks y w).counters = t.counters := rfl

@[simp] theorem config_modifyShard : (t.modifyShard s f).config = t.config := rfl
@[simp] theorem hasher_modifyShard : (t.modifyShard s f).hasher = t.hasher := rfl
@[simp] theorem slots_modifyShard : (t.modifyShard s f).slots = t.slots := rfl
@[simp] theorem links_modifyShard : (t.modifyShard s f).links = t.links := rfl
@[simp] theorem index_modifyShard : (t.modifyShard s f).index = t.index := rfl
@[simp] theorem shards_modifyShard : (t.modifyShard s f).shards = t.shards.modify s f := rfl
@[simp] theorem spare_modifyShard : (t.modifyShard s f).spare = t.spare := rfl
@[simp] theorem len_modifyShard : (t.modifyShard s f).len = t.len := rfl
@[simp] theorem registered_modifyShard : (t.modifyShard s f).registered = t.registered := rfl
@[simp] theorem counters_modifyShard : (t.modifyShard s f).counters = t.counters := rfl

@[simp] theorem linkOf_modifyShard : (t.modifyShard s f).linkOf = t.linkOf := rfl

end Fields

theorem shards_pushFree (t : Table κ ν) (s slot : Nat) :
    (t.pushFree s slot).shards = t.shards.modify s (·.pushFree slot) := by
  unfold pushFree
  split
  · rfl
  · rename_i h
    rw [Array.modify_of_size_le _ (by simpa using h)]

/-- Setting up the shards writes link pairs and shard registers only. -/
theorem initShard_eq (t : Table κ ν) (s : Nat) :
    ∃ links shards, t.initShard s = { t with links := links, shards := shards } := by
  have hpush : ∀ (xs : List Nat) (t : Table κ ν), ∃ links shards,
      xs.foldl (fun t slot => t.pushFree s slot) t = { t with links := links, shards := shards } := by
    intro xs
    induction xs with
    | nil => exact fun t => ⟨t.links, t.shards, rfl⟩
    | cons x xs ih =>
      intro t
      obtain ⟨links, shards, e⟩ := ih (t.pushFree s x)
      refine ⟨links, shards, ?_⟩
      rw [List.foldl_cons, e]
      unfold pushFree
      split <;> rfl
  obtain ⟨links, shards, e⟩ := hpush (t.config.partition s).reverse (t.initList (t.ends s))
  refine ⟨links, shards.modify s fun sh => { sh with freeLen := sh.quota }, ?_⟩
  simp only [initShard, e]
  rfl

theorem create_eq (c : Config) (h : Hasher) :
    ∃ links shards, (create c h : Table κ ν) = { blank c h with links := links, shards := shards } := by
  suffices ∀ (ss : List Nat) (t : Table κ ν), ∃ links shards,
      ss.foldl initShard t = { t with links := links, shards := shards } from this _ _
  intro ss
  induction ss with
  | nil => exact fun t => ⟨t.links, t.shards, rfl⟩
  | cons s ss ih =>
    intro t
    obtain ⟨l₁, sh₁, e₁⟩ := initShard_eq t s
    obtain ⟨l₂, sh₂, e₂⟩ := ih (t.initShard s)
    refine ⟨l₂, sh₂, ?_⟩
    rw [List.foldl_cons, e₂, e₁]

section Create

variable {c : Config} {h : Hasher}

@[simp] theorem config_create : (create c h : Table κ ν).config = c := by
  obtain ⟨_, _, e⟩ := create_eq (κ := κ) (ν := ν) c h
  rw [e]
  rfl

@[simp] theorem hasher_create : (create c h : Table κ ν).hasher = h := by
  obtain ⟨_, _, e⟩ := create_eq (κ := κ) (ν := ν) c h
  rw [e]
  rfl

@[simp] theorem slots_create : (create c h : Table κ ν).slots = Array.replicate c.capacity none := by
  obtain ⟨_, _, e⟩ := create_eq (κ := κ) (ν := ν) c h
  rw [e]
  rfl

@[simp] theorem index_create : (create c h : Table κ ν).index = Index.empty c.buckets := by
  obtain ⟨_, _, e⟩ := create_eq (κ := κ) (ν := ν) c h
  rw [e]
  rfl

@[simp] theorem spare_create : (create c h : Table κ ν).spare = [] := by
  obtain ⟨_, _, e⟩ := create_eq (κ := κ) (ν := ν) c h
  rw [e]
  rfl

@[simp] theorem len_create : (create c h : Table κ ν).len = 0 := by
  obtain ⟨_, _, e⟩ := create_eq (κ := κ) (ν := ν) c h
  rw [e]
  rfl

@[simp] theorem registered_create : (create c h : Table κ ν).registered = 0 := by
  obtain ⟨_, _, e⟩ := create_eq (κ := κ) (ν := ν) c h
  rw [e]
  rfl

@[simp] theorem counters_create : (create c h : Table κ ν).counters = {} := by
  obtain ⟨_, _, e⟩ := create_eq (κ := κ) (ν := ν) c h
  rw [e]
  rfl

end Create

/-- Pushing `xs` from its last slot to its first puts them on top of the free list in the
order of `xs`. -/
theorem Shard.foldl_pushFree (xs : List Nat) (sh : Shard) :
    xs.reverse.foldl Shard.pushFree sh =
      { sh with free := xs ++ sh.free, freeHead := (xs.head?.map Nat.toUInt32).getD sh.freeHead } := by
  induction xs generalizing sh with
  | nil => rfl
  | cons x xs ih =>
    rw [List.reverse_cons, List.foldl_append, ih]
    rfl

theorem shards_foldl_pushFree (s : Nat) (xs : List Nat) (t : Table κ ν) :
    (xs.foldl (fun t slot => t.pushFree s slot) t).shards =
      t.shards.modify s (fun sh => xs.foldl Shard.pushFree sh) := by
  induction xs generalizing t with
  | nil =>
    apply Array.ext_getElem?
    intro j
    simp only [List.foldl_nil, Array.getElem?_modify]
    split <;> simp
  | cons x xs ih =>
    rw [List.foldl_cons, ih, shards_pushFree, Array.modify_modify_of_eq]
    rfl

theorem shards_initShard (t : Table κ ν) (s : Nat) :
    (t.initShard s).shards = t.shards.modify s fun sh =>
      let sh' := (t.config.partition s).reverse.foldl Shard.pushFree sh
      { sh' with freeLen := sh'.quota } := by
  simp only [initShard, shards_modifyShard, shards_foldl_pushFree, initList, shards_setLinks,
    Array.modify_modify_of_eq]
  rfl

/-- Each shard of a fresh table has its partition on its free list, lowest slot on top. -/
theorem shards_create (c : Config) (h : Hasher) :
    (create c h : Table κ ν).shards = (Array.range c.shards).map (Shard.initial c) := by
  -- after the first `n` shards are set up, those are fresh and the others still blank
  suffices ∀ n ≤ c.shards, ((List.range n).foldl initShard (blank c h : Table κ ν)).shards =
      (Array.range c.shards).map fun j => if j < n then Shard.initial c j else Shard.blank c j by
    rw [create, this c.shards (Nat.le_refl _)]
    apply Array.ext_getElem?
    intro j
    simp only [Array.getElem?_map, Array.getElem?_range]
    split <;> simp_all
  intro n hn
  induction n with
  | zero =>
    apply Array.ext_getElem?
    intro j
    simp [blank]
  | succ n ih =>
    have hconf : ((List.range n).foldl initShard (blank c h : Table κ ν)).config = c := by
      suffices ∀ (ss : List Nat) (t : Table κ ν), (ss.foldl initShard t).config = t.config from
        this _ _
      intro ss
      induction ss with
      | nil => exact fun _ => rfl
      | cons s ss ihs =>
        intro t
        obtain ⟨_, _, e⟩ := initShard_eq t s
        rw [List.foldl_cons, ihs, e]
    rw [List.range_succ, List.foldl_append, List.foldl_cons, List.foldl_nil, shards_initShard,
      ih (by omega), hconf]
    apply Array.ext_getElem?
    intro j
    simp only [Array.getElem?_modify, Array.getElem?_map, Array.getElem?_range]
    by_cases hj : j < c.shards
    · by_cases hjn : n = j
      · subst hjn
        simp only [hj, if_true, Nat.lt_irrefl, if_false, Option.map_some, Nat.lt_succ_self,
          Option.some.injEq]
        rw [Shard.foldl_pushFree]
        simp [Shard.blank, Shard.initial]
      · have : j ≤ n ↔ j < n := by omega
        simp [hj, hjn, Nat.lt_add_one_iff, this]
    · simp [hj]

theorem build_eq_ok_iff {c : Config} {h : Hasher} {t : Table κ ν} :
    build c h = .ok t ↔ c.validate = .ok () ∧ create c h = t := by
  unfold build
  split <;> simp_all

/-- Hands out the next shard.
mirrors src/src/ds/shard.rs:146-157 -/
def register (t : Table κ ν) : Except ConfigError (Nat × Table κ ν) :=
  if t.registered < t.config.shards then .ok (t.registered, { t with registered := t.registered + 1 })
  else .error (.allRegistered t.config.shards)

/-- Registration succeeds exactly while a shard is left, and hands out the
next one. -/
theorem register_eq_ok_iff {t t' : Table κ ν} {s : Nat} :
    t.register = .ok (s, t') ↔
      t.registered < t.config.shards ∧ s = t.registered ∧ t' = { t with registered := t.registered + 1 } := by
  unfold register
  split
  · rename_i hlt
    simp only [Except.ok.injEq, Prod.mk.injEq]
    constructor
    · rintro ⟨rfl, rfl⟩; exact ⟨hlt, rfl, rfl⟩
    · rintro ⟨_, rfl, rfl⟩; exact ⟨rfl, rfl⟩
  · rename_i hge
    simp only [reduceCtorEq, false_iff]
    exact fun h => hge h.1

/-- The quota of shard `s`, if there is such a shard.
mirrors src/src/policy/lru.rs:313-315 -/
def shardCapacity (t : Table κ ν) (s : Nat) : Option Nat := (t.shards[s]?).map (·.quota)

/-- The entry in a slot.
mirrors src/src/ds/slot_arena.rs:119-121 -/
def entry? (t : Table κ ν) (slot : Nat) : Option (Entry κ ν) := (t.slots[slot]?).join

/-- The home bucket of the entry in a slot (bucket `0` for an empty slot,
which no bucket holds).
mirrors src/src/policy/lru.rs:343-345 -/
def homeOf (t : Table κ ν) (slot : Nat) : Nat :=
  match t.entry? slot with
  | some e => t.index.home e.hash
  | none => 0

/-- Counts an event.
mirrors src/src/metrics/metrics_impl.rs:77-129 -/
def record (t : Table κ ν) (e : Event) : Table κ ν := { t with counters := t.counters.record e }

@[simp] theorem counters_record (t : Table κ ν) (e : Event) :
    (t.record e).counters = t.counters.record e := rfl

@[simp] theorem len_record (t : Table κ ν) (e : Event) : (t.record e).len = t.len := rfl

@[simp] theorem index_record (t : Table κ ν) (e : Event) : (t.record e).index = t.index := rfl

@[simp] theorem slots_record (t : Table κ ν) (e : Event) : (t.record e).slots = t.slots := rfl

@[simp] theorem shards_record (t : Table κ ν) (e : Event) : (t.record e).shards = t.shards := rfl

@[simp] theorem spare_record (t : Table κ ν) (e : Event) : (t.record e).spare = t.spare := rfl

@[simp] theorem links_record (t : Table κ ν) (e : Event) : (t.record e).links = t.links := rfl

@[simp] theorem linkOf_record (t : Table κ ν) (e : Event) : (t.record e).linkOf = t.linkOf := rfl

/-- Writes a slot of the arena.
mirrors src/src/ds/slot_arena.rs:100-109 -/
def writeSlot (t : Table κ ν) (slot : Nat) (e : Option (Entry κ ν)) : Table κ ν :=
  { t with slots := t.slots.setIfInBounds slot e }

/-- The snapshot of the counters, with the table's size and geometry.
mirrors src/src/policy/lru.rs:976-988 -/
def snapshot (t : Table κ ν) : Snapshot :=
  t.counters.snapshot t.len t.config.capacity t.config.buckets t.registered

/-- Forgets every counted event.
mirrors src/src/policy/lru.rs:1000-1004 -/
def resetCounters (t : Table κ ν) : Table κ ν := { t with counters := {} }

/-- The one-line description of a table.
mirrors src/src/policy/lru.rs:961-971 -/
def describe (t : Table κ ν) : String :=
  "ShardedLru \x7b len: " ++ toString t.len ++ ", capacity: " ++ toString t.config.capacity ++
    ", hash_buckets: " ++ toString t.config.buckets ++ ", max_threads: " ++
    toString t.config.shards ++ ", registered_threads: " ++ toString t.registered ++ " \x7d"

end Table

end ShardCache
