import Mathlib.Data.List.Perm.Subperm
import ShardCache.Proofs.Links
import ShardCache.Proofs.Layout
import ShardCache.Proofs.Calls
/-!
# The structural invariant

`Table.Invariant` states the rules that every reachable table keeps:

* the geometry is valid, and the arena, the index and the shard array have
  the sizes it gives; no more handles are out than there are shards;
* every shard's quota is the size of its partition, it keeps at most that
  many free slots, and its handle holds no run of buckets;
* every data slot is on exactly one recency list, free stack or the spare
  pool, and the listed slots are the indexed ones;
* the link words form those lists (`Table.Linked`): each recency list is a
  doubly linked chain between its sentinels, each free list a chain from its
  free head along successor words with `freeLen` its length, and every spare
  slot is detached;
* a slot holds an entry exactly when it is indexed, the entry keeps its key's
  hash, and no two entries have one key;
* no two buckets hold one slot, every bucket from an entry's home up to the
  entry is occupied, and `len` counts the entries.

A step of the table is of one of three kinds, each a relation between the
tables before and after it. A `Reshuffle` moves slots between lists and
changes values and counters only. A `Drop` takes one entry out of the index
by backward shift, empties its slot and hands the slot back. An `Added`
takes a slot from the pool and places a new entry in it, at the first free
bucket from its home. Each relation carries what its step does to the link words: from a
linked table whose slots are placed, it makes a linked table. All three keep
the invariant, and keep the index the first-come layout (`Index.Arranged`) of
the entries in the order they were made.

Results:
* `Invariant.probeKey_hit`: the probe for the key of an entry stops at it;
  `Invariant.probeKey_vacant`: a probe that stops at a free bucket was for an
  absent key, and stops where placing the key would put it.
* `Invariant.reshuffle`, `Invariant.drop`, `Invariant.added`: the three kinds
  of steps keep the invariant and the layout.
* `Invariant.get_ne_locked`, `Invariant.side_ne_locked`: no bucket and no link
  word of a table that keeps the invariant reads `locked`.
-/
namespace ShardCache

theorem Config.validate_eq_ok {c : Config} :
    c.validate = .ok () ↔ 0 < c.capacity ∧ 0 < c.shards ∧ c.capacity < c.buckets ∧
      c.shards ≤ c.capacity ∧ c.capacity + 2 * c.shards ≤ slotIdLimit := by
  rw [Config.validate_eq]
  by_cases h1 : c.capacity = 0
  · simp [h1]
  by_cases h2 : c.shards = 0
  · simp [h1, h2]
  by_cases h3 : c.buckets ≤ c.capacity
  · simp only [h1, h2, h3, if_true, if_false, reduceCtorEq, false_iff]
    omega
  by_cases h4 : c.capacity < c.shards
  · simp only [h1, h2, h3, h4, if_true, if_false, reduceCtorEq, false_iff]
    omega
  by_cases h5 : slotIdLimit < c.capacity + 2 * c.shards
  · simp only [h1, h2, h3, h4, h5, if_true, if_false, reduceCtorEq, false_iff]
    omega
  simp only [h1, h2, h3, h4, h5, if_false, true_iff]
  omega

namespace Table

variable {κ ν : Type}

/-- The key and the stored hash of a slot's entry. -/
def tag (t : Table κ ν) (slot : Nat) : Option (κ × UInt64) :=
  (t.entry? slot).map fun e => (e.key, e.hash)

/-- No shard counts more free slots than its quota. -/
def FreeLe (t : Table κ ν) : Prop :=
  ∀ (s : Nat) (sh : Shard), t.shards[s]? = some sh → sh.freeLen ≤ sh.quota

/-! ## Entries through their tags -/

section Tags

variable {t t' : Table κ ν}

theorem isSome_tag (t : Table κ ν) (slot : Nat) : (t.tag slot).isSome = (t.entry? slot).isSome := by
  simp [tag]

theorem lt_size_of_entry {slot : Nat} {e : Entry κ ν} (he : t.entry? slot = some e) :
    slot < t.slots.size := by
  unfold entry? at he
  cases h : t.slots[slot]? with
  | none => rw [h] at he; cases he
  | some _ => exact (Array.getElem?_eq_some_iff.1 h).1

theorem tag_of_entry {slot : Nat} {e : Entry κ ν} (he : t.entry? slot = some e) :
    t.tag slot = some (e.key, e.hash) := by
  simp [tag, he]

theorem entry_of_tag {slot : Nat} {k : κ} {h : UInt64} (ht : t.tag slot = some (k, h)) :
    ∃ e, t.entry? slot = some e ∧ e.key = k ∧ e.hash = h := by
  unfold tag at ht
  cases he : t.entry? slot with
  | none => rw [he] at ht; cases ht
  | some e =>
    rw [he] at ht
    simp only [Option.map_some, Option.some.injEq, Prod.mk.injEq] at ht
    exact ⟨e, rfl, ht⟩

/-- An entry of `t'` whose tag is that of the same slot in `t`. -/
theorem entry_of_tag_eq {slot : Nat} {e' : Entry κ ν} (htag : t'.tag slot = t.tag slot)
    (he : t'.entry? slot = some e') : ∃ e, t.entry? slot = some e ∧ e.key = e'.key ∧ e.hash = e'.hash := by
  rw [tag_of_entry he] at htag
  exact entry_of_tag htag.symm

theorem keyOf_eq_some {slot : Nat} {k : κ} : t.keyOf slot = some k ↔ ∃ e, t.entry? slot = some e ∧ e.key = k := by
  unfold keyOf
  cases t.entry? slot <;> simp

theorem keyOf_eq_tag (t : Table κ ν) (slot : Nat) : t.keyOf slot = (t.tag slot).map Prod.fst := by
  unfold keyOf tag
  rw [Option.map_map]
  rfl

theorem homeOf_eq_tag (t : Table κ ν) (slot : Nat) :
    t.homeOf slot = ((t.tag slot).map fun p => t.index.home p.2).getD 0 := by
  unfold homeOf tag
  cases t.entry? slot <;> rfl

theorem homeOf_congr {slot : Nat} (hsize : t'.index.size = t.index.size)
    (htag : t'.tag slot = t.tag slot) : t'.homeOf slot = t.homeOf slot := by
  rw [homeOf_eq_tag, homeOf_eq_tag, htag]
  simp only [Index.home, hsize]

theorem homeOf_of_entry {slot : Nat} {e : Entry κ ν} (he : t.entry? slot = some e) :
    t.homeOf slot = t.index.home e.hash := by
  simp [homeOf, he]

theorem holds_iff [DecidableEq κ] {t : Table κ ν} {hash : UInt64} {k : κ} {slot : Nat} :
    t.holds hash k slot = true ↔ ∃ e, t.entry? slot = some e ∧ e.hash = hash ∧ e.key = k := by
  unfold holds
  cases t.entry? slot with
  | none => simp
  | some e => simp


end Tags

/-! ## The frame -/

/-- What no step changes: the geometry, the hasher, the registrations, the
sizes of the arena, the index and the shard array, and each shard's quota
and probe run. -/
structure Frame (t t' : Table κ ν) : Prop where
  config : t'.config = t.config
  hasher : t'.hasher = t.hasher
  registered : t'.registered = t.registered
  slots_size : t'.slots.size = t.slots.size
  index_size : t'.index.size = t.index.size
  shards_size : t'.shards.size = t.shards.size
  shard : ∀ (s : Nat) (sh' : Shard), t'.shards[s]? = some sh' →
    ∃ sh : Shard, t.shards[s]? = some sh ∧ sh'.quota = sh.quota ∧ sh'.run = sh.run

namespace Frame

variable {t t₁ t₂ : Table κ ν}

theorem refl (t : Table κ ν) : Frame t t :=
  ⟨rfl, rfl, rfl, rfl, rfl, rfl, fun _ sh h => ⟨sh, h, rfl, rfl⟩⟩

theorem trans (h₁ : Frame t t₁) (h₂ : Frame t₁ t₂) : Frame t t₂ where
  config := h₂.config.trans h₁.config
  hasher := h₂.hasher.trans h₁.hasher
  registered := h₂.registered.trans h₁.registered
  slots_size := h₂.slots_size.trans h₁.slots_size
  index_size := h₂.index_size.trans h₁.index_size
  shards_size := h₂.shards_size.trans h₁.shards_size
  shard s sh₂ h := by
    obtain ⟨sh₁, hsh₁, hq₁, hh₁⟩ := h₂.shard s sh₂ h
    obtain ⟨sh, hsh, hq, hh⟩ := h₁.shard s sh₁ hsh₁
    exact ⟨sh, hsh, hq₁.trans hq, hh₁.trans hh⟩

/-- A step that keeps the frame and takes no slot into two places keeps the slots placed. -/
theorem placed (hf : Frame t t₁) (hp : t.Placed) (h : t₁.pool.Subperm t.pool) : t₁.Placed :=
  hp.of_subperm hf.config hf.shards_size h

end Frame

/-! ## Reshuffles -/

/-- A step that moves slots between lists and changes values and counters
only: the index, the keys and the pool of slots stay. -/
structure Reshuffle (t t' : Table κ ν) : Prop where
  frame : Frame t t'
  index : t'.index = t.index
  len : t'.len = t.len
  tag : ∀ slot, t'.tag slot = t.tag slot
  listed : t'.listed.Perm t.listed
  pool : t'.pool.Perm t.pool
  free_le : t.FreeLe → t'.FreeLe
  linked : t.Linked → t.Placed → t'.Linked

namespace Reshuffle

variable {t t₁ t₂ : Table κ ν}

theorem refl (t : Table κ ν) : Reshuffle t t :=
  ⟨Frame.refl t, rfl, rfl, fun _ => rfl, List.Perm.refl _, List.Perm.refl _, id, fun hl _ => hl⟩

theorem trans (h₁ : Reshuffle t t₁) (h₂ : Reshuffle t₁ t₂) : Reshuffle t t₂ where
  frame := h₁.frame.trans h₂.frame
  index := h₂.index.trans h₁.index
  len := h₂.len.trans h₁.len
  tag slot := (h₂.tag slot).trans (h₁.tag slot)
  listed := h₂.listed.trans h₁.listed
  pool := h₂.pool.trans h₁.pool
  free_le := h₂.free_le ∘ h₁.free_le
  linked hl hp := h₂.linked (h₁.linked hl hp) (h₁.frame.placed hp h₁.pool.subperm)

theorem homeOf_eq (h : Reshuffle t t₁) : t₁.homeOf = t.homeOf := by
  funext slot
  exact homeOf_congr (by rw [h.index]) (h.tag slot)

theorem keyOf_eq (h : Reshuffle t t₁) : t₁.keyOf = t.keyOf := by
  funext slot
  rw [keyOf_eq_tag, keyOf_eq_tag, h.tag slot]

end Reshuffle

/-! ## Drops -/

/-- A step that takes the entry of slot `x`, in the bucket `depth` after
`start`, out of the index by backward shift, empties the slot and takes it
off its list; the slot stays in the pool. -/
structure Drop (t t' : Table κ ν) (x start depth : Nat) : Prop where
  frame : Frame t t'
  index : t'.index = t.index.removeAt t.homeOf start depth
  len : t'.len = t.len - 1
  tag : ∀ slot, t'.tag slot = if slot = x then none else t.tag slot
  listed : t.listed.Perm (x :: t'.listed)
  pool : t'.pool.Perm t.pool
  free_le : t.FreeLe → t'.FreeLe
  linked : t.Linked → t.Placed → t'.Linked

theorem Drop.keyOf {t t' : Table κ ν} {x start depth : Nat} (h : Drop t t' x start depth) (slot : Nat) :
    t'.keyOf slot = if slot = x then none else t.keyOf slot := by
  rw [keyOf_eq_tag, keyOf_eq_tag, h.tag slot]
  split <;> rfl

/-! ## Additions -/

/-- A step that places a new entry `e` in slot `y`, at the first free bucket
from the entry's home, and links the slot; the slot stays in the pool. -/
structure Added (t t' : Table κ ν) (y : Nat) (e : Entry κ ν) : Prop where
  frame : Frame t t'
  index : t'.index = t.index.place (t.index.home e.hash) y
  len : t'.len = t.len + 1
  tag : ∀ slot, t'.tag slot = if slot = y then some (e.key, e.hash) else t.tag slot
  listed : t'.listed.Perm (y :: t.listed)
  pool : t'.pool.Perm t.pool
  free_le : t.FreeLe → t'.FreeLe
  linked : t.Linked → t.Placed → t'.Linked

theorem Added.keyOf {t t' : Table κ ν} {y : Nat} {e : Entry κ ν} (h : Added t t' y e) (slot : Nat) :
    t'.keyOf slot = if slot = y then some e.key else t.keyOf slot := by
  rw [keyOf_eq_tag, keyOf_eq_tag, h.tag slot]
  split <;> rfl

variable [CacheKey κ]

/-- The structural rules of a table. -/
structure Invariant (t : Table κ ν) : Prop where
  valid : t.config.validate = .ok ()
  slots_size : t.slots.size = t.config.capacity
  index_size : t.index.size = t.config.buckets
  shards_size : t.shards.size = t.config.shards
  registered_le : t.registered ≤ t.config.shards
  quota : ∀ (s : Nat) (sh : Shard), t.shards[s]? = some sh → sh.quota = t.config.quota s
  free_le : t.FreeLe
  idle : ∀ (s : Nat) (sh : Shard), t.shards[s]? = some sh → sh.run.isHeld = false
  /-- Every data slot is on exactly one list, free stack or the spare pool. -/
  pool : t.pool.Perm (List.range t.config.capacity)
  /-- The link words and the free-list registers form those lists. -/
  linked : t.Linked
  /-- The listed slots are the indexed ones. -/
  listed : t.listed.Perm t.index.slots
  entry_iff : ∀ slot, (t.entry? slot).isSome ↔ slot ∈ t.index.slots
  hash : ∀ slot e, t.entry? slot = some e → e.hash = t.hashOf e.key
  key_inj : ∀ a b ea eb, t.entry? a = some ea → t.entry? b = some eb → ea.key = eb.key → a = b
  /-- No two buckets hold one slot. -/
  distinct : ∀ p q slot, t.index.get p = some slot → t.index.get q = some slot → p = q
  /-- Every bucket from an entry's home up to the entry is occupied. -/
  reachable : ∀ pos slot, t.index.get pos = some slot → ∀ q < t.index.size,
    t.index.gap (t.homeOf slot) q < t.index.gap (t.homeOf slot) pos → ∃ y, t.index.get q = some y
  len : t.len = t.index.slots.length

theorem Frame.hashOf_eq {t t₁ : Table κ ν} (h : Frame t t₁) : t₁.hashOf = t.hashOf := by
  funext k
  simp only [Table.hashOf, h.hasher]


/-! ## Consequences of the invariant -/

namespace Invariant

variable {t : Table κ ν}

theorem pool_nodup (hi : t.Invariant) : t.pool.Nodup := hi.pool.nodup_iff.2 List.nodup_range

theorem mem_pool (hi : t.Invariant) {slot : Nat} : slot ∈ t.pool ↔ slot < t.config.capacity := by
  rw [hi.pool.mem_iff, List.mem_range]

theorem placed (hi : t.Invariant) : t.Placed where
  limit := (Config.validate_eq_ok.1 hi.valid).2.2.2.2
  shards_size := hi.shards_size
  nodup := hi.pool_nodup
  lt _ hx := hi.mem_pool.1 hx

theorem lt_of_entry (hi : t.Invariant) {slot : Nat} {e : Entry κ ν} (he : t.entry? slot = some e) :
    slot < t.config.capacity :=
  hi.slots_size ▸ lt_size_of_entry he

theorem indexed_lt (hi : t.Invariant) {slot : Nat} (h : slot ∈ t.index.slots) :
    slot < t.config.capacity := by
  obtain ⟨e, he⟩ := Option.isSome_iff_exists.1 ((hi.entry_iff slot).2 h)
  exact hi.lt_of_entry he

theorem indexed_nodup (hi : t.Invariant) : t.index.slots.Nodup := by
  rw [Index.slots_eq]
  exact List.nodup_range.filterMap fun p q y hp hq => hi.distinct p q y hp hq

theorem capacity_lt (hi : t.Invariant) : t.config.capacity < t.index.size := by
  rw [hi.index_size]
  exact (Config.validate_eq_ok.1 hi.valid).2.2.1

/-- No more entries than data slots: the indexed slots are distinct data slots. -/
theorem entries_le (hi : t.Invariant) : t.index.slots.length ≤ t.config.capacity := by
  have hsub : t.index.slots ⊆ List.range t.config.capacity :=
    fun slot h => List.mem_range.2 (hi.indexed_lt h)
  simpa using hi.indexed_nodup.length_le_of_subset hsub

/-- Fewer entries than buckets: there are no more entries than data slots. -/
theorem entries_lt (hi : t.Invariant) : t.index.slots.length < t.index.size :=
  Nat.lt_of_le_of_lt hi.entries_le hi.capacity_lt

theorem exists_free_bucket (hi : t.Invariant) : ∃ p < t.index.size, t.index.get p = none :=
  Index.exists_free hi.entries_lt

theorem home_lt (hi : t.Invariant) (hash : UInt64) : t.index.home hash < t.index.size :=
  Nat.mod_lt _ (by have := hi.entries_lt; omega)

/-- An indexed slot holds a key. -/
theorem keyOf_ne_none (hi : t.Invariant) {slot : Nat} (h : slot ∈ t.index.slots) : t.keyOf slot ≠ none := by
  obtain ⟨e, he⟩ := Option.isSome_iff_exists.1 ((hi.entry_iff slot).2 h)
  simp [keyOf, he]

/-- No free list holds more slots than its shard's quota. -/
theorem length_free_le (hi : t.Invariant) {s : Nat} {sh : Shard} (hsh : t.shards[s]? = some sh) :
    sh.free.length ≤ sh.quota := by
  rw [← hi.linked.freeLen s sh hsh]
  exact hi.free_le s sh hsh

/-- No bucket reads `locked`: a bucket holds a data slot or nothing. -/
theorem get_ne_locked (hi : t.Invariant) (p : Nat) : t.index.get p ≠ some bucketLocked := by
  intro h
  have hlt := hi.indexed_lt (Index.mem_slots.2 ⟨p, h⟩)
  have hle := hi.placed.limit
  unfold bucketLocked slotIdLimit at *
  omega

/-- No side of a link pair reads `locked`. -/
theorem side_ne_locked (hi : t.Invariant) (y : UInt32) (d : Side) : (t.linkOf y).side d ≠ locked := by
  obtain ⟨seqs, hf, -⟩ := hi.linked.formed
  exact hf.side_ne_locked y d

/-- No free head reads `locked`. -/
theorem freeHead_ne_locked (hi : t.Invariant) {s : Nat} {sh : Shard} (hsh : t.shards[s]? = some sh) :
    sh.freeHead ≠ locked :=
  hi.linked.freeHead_ne_locked hi.placed hsh

end Invariant

/-- The invariant of `t'`, from that of `t` and a frame between them, given
the layout of `t'` for some order of its entries and the rules that a step
can break. -/
theorem Invariant.assemble {t t' : Table κ ν} (hi : t.Invariant) (hf : Frame t t') {order : List Nat}
    (ha : t'.index.Arranged t'.homeOf order) (hfree : t'.FreeLe) (hlinked : t'.Linked)
    (hpool : t'.pool.Perm t.pool)
    (hlisted : t'.listed.Perm order) (hentry : ∀ slot, (t'.entry? slot).isSome ↔ slot ∈ order)
    (hhash : ∀ slot e, t'.entry? slot = some e → e.hash = t'.hashOf e.key)
    (hkey : ∀ a b ea eb, t'.entry? a = some ea → t'.entry? b = some eb → ea.key = eb.key → a = b)
    (hlen : t'.len = order.length) : t'.Invariant where
  valid := by rw [hf.config]; exact hi.valid
  slots_size := by rw [hf.slots_size, hf.config]; exact hi.slots_size
  index_size := by rw [hf.index_size, hf.config]; exact hi.index_size
  shards_size := by rw [hf.shards_size, hf.config]; exact hi.shards_size
  registered_le := by rw [hf.registered, hf.config]; exact hi.registered_le
  quota s sh' h := by
    obtain ⟨sh, hsh, hq, -⟩ := hf.shard s sh' h
    rw [hq, hf.config]
    exact hi.quota s sh hsh
  free_le := hfree
  idle s sh' h := by
    obtain ⟨sh, hsh, -, hh⟩ := hf.shard s sh' h
    rw [hh]
    exact hi.idle s sh hsh
  pool := by rw [hf.config]; exact hpool.trans hi.pool
  linked := hlinked
  listed := hlisted.trans ha.slots_perm.symm
  entry_iff slot := (hentry slot).trans ha.slots_perm.mem_iff.symm
  hash := hhash
  key_inj := hkey
  distinct := ha.unique
  reachable _ _ hp _ hq hgap := ha.occupied hp hq hgap
  len := by rw [hlen, ha.slots_perm.length_eq]

/-- A reshuffle keeps the invariant and the layout. -/
theorem Invariant.reshuffle {t t' : Table κ ν} {order : List Nat} (hi : t.Invariant)
    (ha : t.index.Arranged t.homeOf order) (h : Reshuffle t t') :
    t'.Invariant ∧ t'.index.Arranged t'.homeOf order := by
  have ha' : t'.index.Arranged t'.homeOf order := by
    rw [h.index, h.homeOf_eq]
    exact ha
  refine ⟨hi.assemble h.frame ha' (h.free_le hi.free_le) (h.linked hi.linked hi.placed) h.pool
    (h.listed.trans (hi.listed.trans ha.slots_perm)) ?_ ?_ ?_ ?_, ha'⟩
  · intro slot
    rw [← isSome_tag, h.tag slot, isSome_tag, hi.entry_iff, ha.slots_perm.mem_iff]
  · intro slot e' he'
    obtain ⟨e, he, hk, hh⟩ := entry_of_tag_eq (h.tag slot) he'
    rw [← hk, ← hh, h.frame.hashOf_eq]
    exact hi.hash slot e he
  · intro a b ea' eb' hea' heb' hab
    obtain ⟨ea, hea, hka, -⟩ := entry_of_tag_eq (h.tag a) hea'
    obtain ⟨eb, heb, hkb, -⟩ := entry_of_tag_eq (h.tag b) heb'
    exact hi.key_inj a b ea eb hea heb (by rw [hka, hkb, hab])
  · rw [h.len, hi.len, ha.slots_perm.length_eq]

/-- A drop keeps the invariant, and the layout of the order without the
dropped slot. -/
theorem Invariant.drop {t t' : Table κ ν} {order : List Nat} {x start depth : Nat} (hi : t.Invariant)
    (ha : t.index.Arranged t.homeOf order) (h : Drop t t' x start depth)
    (hx : t.index.get (t.index.position start depth) = some x) :
    t'.Invariant ∧ t'.index.Arranged t'.homeOf (order.erase x) := by
  have hxo : x ∈ order := (ha.mem_iff x).2 ⟨_, hx⟩
  have hmem : ∀ y, y ∈ order.erase x ↔ y ≠ x ∧ y ∈ order := fun y => ha.nodup.mem_erase_iff
  have hlen : order.length < t.index.size := by
    rw [← ha.slots_perm.length_eq]
    exact hi.entries_lt
  have ha' : t'.index.Arranged t'.homeOf (order.erase x) := by
    rw [h.index]
    refine (ha.removeAt hx hlen).congr fun y hy => homeOf_congr ?_ ?_
    · rw [h.index, Index.size_removeAt]
    · rw [h.tag y, if_neg ((hmem y).1 hy).1]
  have htag : ∀ slot, slot ≠ x → t'.tag slot = t.tag slot := fun slot hne => by
    rw [h.tag slot, if_neg hne]
  refine ⟨hi.assemble h.frame ha' (h.free_le hi.free_le) (h.linked hi.linked hi.placed) h.pool
    ?_ ?_ ?_ ?_ ?_, ha'⟩
  · have hperm : (x :: t'.listed).Perm (x :: order.erase x) :=
      h.listed.symm.trans ((hi.listed.trans ha.slots_perm).trans (List.perm_cons_erase hxo))
    exact (List.perm_cons x).1 hperm
  · intro slot
    rw [hmem, ← isSome_tag, h.tag slot]
    by_cases hs : slot = x
    · simp [hs]
    · rw [if_neg hs, isSome_tag, hi.entry_iff, ha.slots_perm.mem_iff]
      exact ⟨fun h' => ⟨hs, h'⟩, fun h' => h'.2⟩
  · intro slot e' he'
    have hs : slot ≠ x := fun hs => by
      have := isSome_tag t' slot
      rw [h.tag slot, if_pos hs, he'] at this
      cases this
    obtain ⟨e, he, hk, hh⟩ := entry_of_tag_eq (htag slot hs) he'
    rw [← hk, ← hh, h.frame.hashOf_eq]
    exact hi.hash slot e he
  · intro a b ea' eb' hea' heb' hab
    have hne : ∀ slot e', t'.entry? slot = some e' → slot ≠ x := fun slot e' he' hs => by
      have := isSome_tag t' slot
      rw [h.tag slot, if_pos hs, he'] at this
      cases this
    obtain ⟨ea, hea, hka, -⟩ := entry_of_tag_eq (htag a (hne a ea' hea')) hea'
    obtain ⟨eb, heb, hkb, -⟩ := entry_of_tag_eq (htag b (hne b eb' heb')) heb'
    exact hi.key_inj a b ea eb hea heb (by rw [hka, hkb, hab])
  · rw [h.len, hi.len, ha.slots_perm.length_eq, List.length_erase_of_mem hxo]

/-- An addition of an unlisted slot, for a key that has no entry and with
the key's hash, keeps the invariant, and the layout of the order with the
new slot last. -/
theorem Invariant.added {t t' : Table κ ν} {order : List Nat} {y : Nat} {e : Entry κ ν}
    (hi : t.Invariant) (ha : t.index.Arranged t.homeOf order) (h : Added t t' y e)
    (hy : y ∉ t.listed) (hhash : e.hash = t.hashOf e.key)
    (hnew : ∀ slot e', t.entry? slot = some e' → e'.key ≠ e.key) :
    t'.Invariant ∧ t'.index.Arranged t'.homeOf (order ++ [y]) := by
  have hyo : y ∉ order := fun h' => hy ((hi.listed.trans ha.slots_perm).mem_iff.2 h')
  have hsize : t'.index.size = t.index.size := h.frame.index_size
  have htag : ∀ slot, slot ≠ y → t'.tag slot = t.tag slot := fun slot hne => by
    rw [h.tag slot, if_neg hne]
  have hhome : t'.homeOf y = t.index.home e.hash := by
    rw [homeOf_eq_tag, h.tag y, if_pos rfl]
    simp only [Option.map_some, Option.getD_some, Index.home, hsize]
  have hlen : order.length < t.index.size := by
    rw [← ha.slots_perm.length_eq]
    exact hi.entries_lt
  have ha₁ : t.index.Arranged t'.homeOf order :=
    ha.congr fun z hz => homeOf_congr hsize (htag z fun hzy => hyo (hzy ▸ hz))
  have ha' : t'.index.Arranged t'.homeOf (order ++ [y]) := by
    have hplace := ha₁.place hyo (by rw [hhome]; exact hi.home_lt _) hlen
    rw [hhome] at hplace
    rw [h.index]
    exact hplace
  have hold : ∀ slot e', t'.entry? slot = some e' → slot ≠ y →
      ∃ e₀, t.entry? slot = some e₀ ∧ e₀.key = e'.key ∧ e₀.hash = e'.hash :=
    fun slot e' he' hs => entry_of_tag_eq (htag slot hs) he'
  have hnewe : ∀ e', t'.entry? y = some e' → e'.key = e.key ∧ e'.hash = e.hash := fun e' he' => by
    have := tag_of_entry he'
    rw [h.tag y, if_pos rfl] at this
    simp only [Option.some.injEq, Prod.mk.injEq] at this
    exact ⟨this.1.symm, this.2.symm⟩
  refine ⟨hi.assemble h.frame ha' (h.free_le hi.free_le) (h.linked hi.linked hi.placed) h.pool
    ?_ ?_ ?_ ?_ ?_, ha'⟩
  · exact h.listed.trans (((hi.listed.trans ha.slots_perm).cons y).trans
      (List.perm_append_singleton y order).symm)
  · intro slot
    rw [← isSome_tag, h.tag slot, List.mem_append, List.mem_singleton]
    by_cases hs : slot = y
    · simp [hs]
    · rw [if_neg hs, isSome_tag, hi.entry_iff, ha.slots_perm.mem_iff]
      simp [hs]
  · intro slot e' he'
    rw [h.frame.hashOf_eq]
    by_cases hs : slot = y
    · subst hs
      obtain ⟨hk, hh⟩ := hnewe e' he'
      rw [hk, hh]
      exact hhash
    · obtain ⟨e₀, he₀, hk, hh⟩ := hold slot e' he' hs
      rw [← hk, ← hh]
      exact hi.hash slot e₀ he₀
  · intro a b ea' eb' hea' heb' hab
    by_cases hay : a = y <;> by_cases hby : b = y
    · rw [hay, hby]
    · subst hay
      obtain ⟨eb, heb, hkb, -⟩ := hold b eb' heb' hby
      exact absurd (by rw [hkb, ← hab, (hnewe ea' hea').1]) (hnew b eb heb)
    · subst hby
      obtain ⟨ea, hea, hka, -⟩ := hold a ea' hea' hay
      exact absurd (by rw [hka, hab, (hnewe eb' heb').1]) (hnew a ea hea)
    · obtain ⟨ea, hea, hka, -⟩ := hold a ea' hea' hay
      obtain ⟨eb, heb, hkb, -⟩ := hold b eb' heb' hby
      exact hi.key_inj a b ea eb hea heb (by rw [hka, hkb, hab])
  · rw [h.len, hi.len, ha.slots_perm.length_eq, List.length_append, List.length_singleton]

variable [DecidableEq κ]

/-- Where a lookup that found a key stopped, and what it found. -/
theorem find?_eq_some {t : Table κ ν} {k : κ} {start depth slot : Nat} (h : t.find? k = some (start, depth, slot)) :
    start = t.index.home (t.hashOf k) ∧ t.index.get (t.index.position start depth) = some slot ∧
      ∃ e, t.entry? slot = some e ∧ e.hash = t.hashOf k ∧ e.key = k := by
  unfold find? at h
  split at h
  · rename_i start' depth' slot' hpk
    simp only [Option.some.injEq, Prod.mk.injEq] at h
    obtain ⟨rfl, rfl, rfl⟩ := h
    simp only [probeKey, Prod.mk.injEq] at hpk
    obtain ⟨rfl, hprobe⟩ := hpk
    obtain ⟨-, hget, hholds, -⟩ := Index.probe_hit hprobe
    exact ⟨rfl, hget, holds_iff.1 hholds⟩
  · cases h

namespace Invariant

variable {t : Table κ ν}

/-! ## Lookups -/

/-- The probe for the key of an entry stops at the entry's bucket. -/
theorem probeKey_hit (hi : t.Invariant) {x : Nat} {e : Entry κ ν} (he : t.entry? x = some e) :
    ∃ p, t.index.get p = some x ∧
      t.probeKey e.key = (t.homeOf x, .hit (t.index.gap (t.homeOf x) p) x) := by
  obtain ⟨p, hp⟩ := Index.mem_slots.1 ((hi.entry_iff x).1 (by simp [he]))
  have hhash := hi.hash x e he
  have hhome : t.index.home (t.hashOf e.key) = t.homeOf x := by rw [homeOf_of_entry he, hhash]
  have hs : t.homeOf x < t.index.size := by rw [← hhome]; exact hi.home_lt _
  refine ⟨p, hp, ?_⟩
  simp only [probeKey, hhome]
  congr 1
  apply Index.probe_eq_hit hs hp (holds_iff.2 ⟨e, he, hhash, rfl⟩)
  intro q hq hgap
  obtain ⟨z, hz⟩ := hi.reachable p x hp q hq hgap
  refine ⟨z, hz, ?_⟩
  -- a bucket before the entry's holds another key: one key has one entry
  cases hzt : t.holds (t.hashOf e.key) e.key z with
  | false => rfl
  | true =>
    obtain ⟨ez, hez, -, hkey⟩ := holds_iff.1 hzt
    have hzx : z = x := hi.key_inj z x ez e hez he hkey
    subst hzx
    have hqp : q = p := hi.distinct q p z hz hp
    subst hqp
    exact absurd hgap (Nat.lt_irrefl _)

theorem find?_of_entry (hi : t.Invariant) {x : Nat} {e : Entry κ ν} (he : t.entry? x = some e) :
    ∃ p, t.index.get p = some x ∧ t.find? e.key = some (t.homeOf x, t.index.gap (t.homeOf x) p, x) := by
  obtain ⟨p, hp, hprobe⟩ := hi.probeKey_hit he
  exact ⟨p, hp, by simp [find?, hprobe]⟩

theorem find?_eq_none (hi : t.Invariant) {k : κ} (h : t.find? k = none) :
    ∀ slot e, t.entry? slot = some e → e.key ≠ k := by
  intro slot e he hk
  subst hk
  obtain ⟨p, -, hfind⟩ := hi.find?_of_entry he
  rw [hfind] at h
  cases h

/-- A probe that stops at a free bucket was for an absent key, and stops
where placing the key would put it. -/
theorem probeKey_vacant (hi : t.Invariant) {k : κ} {start d : Nat}
    (h : t.probeKey k = (start, .vacant d)) :
    (∀ slot e, t.entry? slot = some e → e.key ≠ k) ∧ start = t.index.home (t.hashOf k) ∧
      ∀ y, t.index.place start y = t.index.write (t.index.position start d) (some y) := by
  simp only [probeKey, Prod.mk.injEq] at h
  obtain ⟨rfl, hprobe⟩ := h
  have habsent : ∀ slot e, t.entry? slot = some e → e.key ≠ k := by
    intro slot e he hk
    subst hk
    obtain ⟨p, -, hpk⟩ := hi.probeKey_hit he
    simp only [probeKey, hprobe, Prod.mk.injEq, reduceCtorEq, and_false] at hpk
  refine ⟨habsent, rfl, fun y => Index.place_eq_write ?_⟩
  rw [← hprobe]
  apply Index.probe_congr
  intro p z _
  cases hz : t.holds (t.hashOf k) k z with
  | false => rfl
  | true =>
    obtain ⟨e, he, -, hk⟩ := holds_iff.1 hz
    exact absurd hk (habsent z e he)

/-- A probe never goes round the whole index: a bucket is always free. -/
theorem probeKey_ne_full (hi : t.Invariant) (k : κ) : (t.probeKey k).2 ≠ .full := by
  intro h
  obtain ⟨p, hp, hfree⟩ := hi.exists_free_bucket
  obtain ⟨y, hy⟩ := Index.probe_full (hi.home_lt (t.hashOf k)) h p hp
  rw [hfree] at hy
  cases hy

end Invariant

end Table

end ShardCache
