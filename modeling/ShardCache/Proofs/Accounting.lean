import ShardCache.Proofs.Refinement
import ShardCache.Proofs.Capacity
/-!
# The counters count the abstract table's events

Every call of a table causes events (`ShardCache.Event`) that can be read off
the abstract table before the call (`Model.callEvents`):

* a lookup (`get`, `contains`, `lock`, `update`, `compareAndSwap`) is a get
  hit or a get miss, `set` a set hit or miss, `remove` a remove hit or miss;
* a hit of `get`, `set`, `lock`, `update` or `compareAndSwap`, and an
  overwrite of an insert-or-set, is a promotion, or a skipped promotion
  when the item is first on the caller's list already;
* an insert of a present key is refused, or is an update for
  insert-or-set; an insert of an absent key is a new entry, after the
  events of finding it a free slot;
* finding a free slot for a shard whose free stack is empty is a reclaim:
  a slot from the spare stack is a foreign reclaim, the eviction of the
  shard's own least recently used item an eviction, and the eviction of
  another shard's item both;
* `retain` removes each refused key as a remove hit; `process` counts
  nothing.

The table keeps one counter per kind of event, and its snapshot sums them
into the totals of each kind of call. From a table that counts nothing yet,
fresh or just reset, a run of calls leaves counters that are exactly the
numbers of the run's events (`snapshot_counts_events`).
-/
namespace ShardCache

/-! ## Counting a log of events -/

namespace Counters

/-- The counters after counting a log of events. -/
def tally (c : Counters) (log : List Event) : Counters := log.foldl Counters.record c

@[simp] theorem tally_nil (c : Counters) : c.tally [] = c := rfl

@[simp] theorem tally_cons (c : Counters) (e : Event) (log : List Event) :
    c.tally (e :: log) = (c.record e).tally log := rfl

@[simp] theorem tally_append (c : Counters) (l₁ l₂ : List Event) :
    c.tally (l₁ ++ l₂) = (c.tally l₁).tally l₂ :=
  List.foldl_append

/-- Each counter grows by the number of its events in the log. -/
theorem tally_eq (c : Counters) (log : List Event) :
    c.tally log =
      { getHits := c.getHits + log.count .getHit
        getMisses := c.getMisses + log.count .getMiss
        insertNew := c.insertNew + log.count .insertNew
        insertUpdates := c.insertUpdates + log.count .insertUpdate
        insertRejected := c.insertRejected + log.count .insertRejected
        setHits := c.setHits + log.count .setHit
        setMisses := c.setMisses + log.count .setMiss
        removeHits := c.removeHits + log.count .removeHit
        removeMisses := c.removeMisses + log.count .removeMiss
        promotions := c.promotions + log.count .promotion
        promotionsSkipped := c.promotionsSkipped + log.count .promotionSkipped
        evictions := c.evictions + log.count .eviction
        foreignReclaims := c.foreignReclaims + log.count .foreignReclaim } := by
  induction log generalizing c with
  | nil => rfl
  | cons e log ih =>
    rw [tally_cons, ih]
    cases e <;> simp only [Counters.record, List.count_cons, beq_iff_eq, reduceCtorEq, if_true,
      if_false, Counters.mk.injEq] <;> omega

end Counters

/-- The snapshot of a table that has counted the events of `log` from zero,
with its size and geometry. -/
def Snapshot.ofEvents (log : List Event) (len capacity buckets registered : Nat) : Snapshot where
  getCalls := log.count .getHit + log.count .getMiss
  getHits := log.count .getHit
  getMisses := log.count .getMiss
  insertCalls := log.count .insertNew + log.count .insertUpdate + log.count .insertRejected
  insertNew := log.count .insertNew
  insertUpdates := log.count .insertUpdate
  insertRejected := log.count .insertRejected
  setCalls := log.count .setHit + log.count .setMiss
  setHits := log.count .setHit
  removeCalls := log.count .removeHit + log.count .removeMiss
  removeHits := log.count .removeHit
  promotions := log.count .promotion
  promotionsSkipped := log.count .promotionSkipped
  evictedEntries := log.count .eviction
  foreignReclaims := log.count .foreignReclaim
  len := len
  capacity := capacity
  buckets := buckets
  registered := registered

theorem snapshot_tally_empty (log : List Event) (len capacity buckets registered : Nat) :
    (({} : Counters).tally log).snapshot len capacity buckets registered =
      Snapshot.ofEvents log len capacity buckets registered := by
  rw [Counters.tally_eq]
  simp [Counters.snapshot, Snapshot.ofEvents]

/-! ## The events of a call -/

namespace Model

variable {κ ν : Type} [DecidableEq κ]

/-- Whether some shard's list holds an item. -/
def hasItems (m : Model κ ν) : Bool := m.shards.any fun sh => !sh.items.isEmpty

/-- The events of a reclaim for shard `s`: a slot from the spare stack is a
foreign reclaim, the eviction of the last item of `s`'s own list an
eviction, and that of another shard's item both. -/
def reclaimEvents (m : Model κ ν) (s : Nat) : List Event :=
  if !m.spare.isEmpty then [.foreignReclaim]
  else if (m.takeLast s).isSome then [.eviction]
  else if m.hasItems then [.foreignReclaim, .eviction]
  else []

/-- The events of finding shard `s` a free slot: none while its free stack
has one, else those of a reclaim. -/
def acquireEvents (m : Model κ ν) (s : Nat) : List Event :=
  if (m.takeFree s).isSome then [] else m.reclaimEvents s

/-- The promotion that a hit of `k` through shard `s` causes: skipped when
the item is first on `s`'s list already. -/
def promotionEvent (m : Model κ ν) (s : Nat) (k : κ) : Event :=
  if (m.shards[s]?.bind (·.items.head?)).map (·.key) = some k then .promotionSkipped else .promotion

/-- The events of a lookup of `k` through shard `s` that promotes on a hit. -/
def lookupEvents (m : Model κ ν) (s : Nat) (k : κ) (hit miss : Event) : List Event :=
  if (m.find? k).isSome then [hit, m.promotionEvent s k] else [miss]

/-- The events of an insert of `k` through shard `s` that overwrites a
present key or refuses it. -/
def upsertEvents (m : Model κ ν) (s : Nat) (k : κ) (overwrite : Bool) : List Event :=
  if (m.find? k).isSome then
    if overwrite then [.insertUpdate, m.promotionEvent s k] else [.insertRejected]
  else m.acquireEvents s ++ [.insertNew]

/-- The events of one call. -/
def callEvents (m : Model κ ν) : Call κ ν → List Event
  | .insert s k _ => m.upsertEvents s k false
  | .insertOrSet s k _ => m.upsertEvents s k true
  | .get s k | .lock s k _ | .update s k _ | .compareAndSwap s k _ _ => m.lookupEvents s k .getHit .getMiss
  | .contains _ k => if (m.find? k).isSome then [.getHit] else [.getMiss]
  | .set s k _ => m.lookupEvents s k .setHit .setMiss
  | .remove _ k => if (m.find? k).isSome then [.removeHit] else [.removeMiss]
  | .retain _ keep => List.replicate (m.refused keep).length .removeHit
  | .process _ => []

/-! ## Frames: what the lookups and the promotion read -/

omit [DecidableEq κ] in
@[simp] theorem counters_record (m : Model κ ν) (e : Event) :
    (m.record e).counters = m.counters.record e := rfl

omit [DecidableEq κ] in
@[simp] theorem counters_modifyShard (m : Model κ ν) (s : Nat) (f : ModelShard κ ν → ModelShard κ ν) :
    (m.modifyShard s f).counters = m.counters := rfl

@[simp] theorem find?_record (m : Model κ ν) (e : Event) : (m.record e).find? = m.find? := rfl

@[simp] theorem promotionEvent_record (m : Model κ ν) (e : Event) :
    (m.record e).promotionEvent = m.promotionEvent := rfl

/-- A lookup reads the lists alone. -/
theorem find?_eq_of_items {m m' : Model κ ν} (h : m'.shards.map (·.items) = m.shards.map (·.items)) :
    m'.find? = m.find? := by
  funext k
  have h' := congrArg Array.toList h
  simp only [Array.toList_map] at h'
  have hfind : ∀ n : Model κ ν, n.find? k = (n.shards.toList.map (·.items)).findSome? (·.find? (·.key = k)) :=
    fun n => by rw [List.findSome?_map]; rfl
  rw [hfind, hfind, h']

omit [DecidableEq κ] in
theorem map_items_modifyShard (m : Model κ ν) (s : Nat) {f : ModelShard κ ν → ModelShard κ ν}
    (hf : ∀ sh, (f sh).items = sh.items) : (m.modifyShard s f).shards.map (·.items) = m.shards.map (·.items) := by
  apply Array.ext_getElem?
  intro j
  simp only [Array.getElem?_map, modifyShard, Array.getElem?_modify]
  split
  · cases m.shards[j]? <;> simp [hf]
  · rfl

omit [DecidableEq κ] in
theorem map_items_release (m : Model κ ν) (s slot : Nat) :
    (m.release s slot).shards.map (·.items) = m.shards.map (·.items) := by
  unfold release
  split
  · exact map_items_modifyShard m s fun _ => rfl
  · rfl

omit [DecidableEq κ] in
theorem counters_release (m : Model κ ν) (s slot : Nat) : (m.release s slot).counters = m.counters := by
  unfold release
  split <;> rfl

/-- Setting a value leaves every key where it was. -/
theorem find?_setValue (m : Model κ ν) (k k' : κ) (v : ν) :
    (m.setValue k v).find? k' = (m.find? k').map fun it => if it.key = k then { it with value := v } else it := by
  simp only [find?, setValue, Array.toList_map, List.findSome?_map, List.map_findSome?]
  congr 1
  funext sh
  simp only [Function.comp_apply, List.find?_map]
  congr 2
  funext it
  split <;> rfl

theorem promotionEvent_setValue (m : Model κ ν) (k : κ) (v : ν) :
    (m.setValue k v).promotionEvent = m.promotionEvent := by
  funext s k'
  have hkey : ∀ it : Item κ ν, (if it.key = k then { it with value := v } else it).key = it.key := by
    intro it
    split <;> rfl
  simp only [promotionEvent, setValue, Array.getElem?_map]
  cases m.shards[s]? with
  | none => rfl
  | some sh =>
    rcases sh with ⟨_ | ⟨it, rest⟩, free, quota⟩
    · rfl
    · simp [hkey]

/-! ## What each operation of the abstract table counts -/

/-- A promotion of a present key counts its promotion event. -/
theorem counters_promote (m : Model κ ν) (s : Nat) {k : κ} (hk : (m.find? k).isSome) :
    (m.promote s k).counters = m.counters.record (m.promotionEvent s k) := by
  obtain ⟨it, hit⟩ := Option.isSome_iff_exists.1 hk
  unfold promote promotionEvent
  by_cases hfirst : (m.shards[s]?.bind (·.items.head?)).map (·.key) = some k
  · simp only [hfirst, if_true]
    rfl
  · simp only [hfirst, if_false, hit]
    rfl

theorem counters_get (m : Model κ ν) (s : Nat) (k : κ) :
    (m.get s k).2.counters = m.counters.tally (m.lookupEvents s k .getHit .getMiss) := by
  unfold get lookupEvents
  cases hk : m.find? k with
  | none => rfl
  | some it =>
    rw [counters_promote _ _ (by rw [find?_record, hk]; rfl)]
    rfl

theorem counters_contains (m : Model κ ν) (k : κ) :
    (m.contains k).2.counters = m.counters.tally (if (m.find? k).isSome then [.getHit] else [.getMiss]) := by
  unfold contains
  cases m.find? k <;> rfl

theorem counters_set (m : Model κ ν) (s : Nat) (k : κ) (v : ν) :
    (m.set s k v).2.counters = m.counters.tally (m.lookupEvents s k .setHit .setMiss) := by
  unfold set lookupEvents
  cases hk : m.find? k with
  | none => rfl
  | some it =>
    rw [counters_promote _ _ (by rw [find?_record, find?_setValue, hk]; rfl), promotionEvent_record,
      promotionEvent_setValue]
    rfl

theorem counters_remove (m : Model κ ν) (s : Nat) (k : κ) :
    (m.remove s k).2.counters = m.counters.tally (if (m.find? k).isSome then [.removeHit] else [.removeMiss]) := by
  unfold remove
  cases m.find? k with
  | none => rfl
  | some it => exact counters_release _ _ _

theorem counters_lockWith {α : Type} (m : Model κ ν) (s : Nat) (k : κ) (f : Item κ ν → ν × α) :
    (m.lockWith s k f).2.counters = m.counters.tally (m.lookupEvents s k .getHit .getMiss) := by
  unfold lockWith lookupEvents
  cases hk : m.find? k with
  | none => rfl
  | some it =>
    dsimp only
    rw [counters_promote _ _ (by rw [find?_setValue, find?_record, hk]; rfl), promotionEvent_setValue,
      promotionEvent_record]
    rfl

/-! ## Reclaims -/

omit [DecidableEq κ] in
theorem counters_takeLast {m m' : Model κ ν} {s : Nat} {it : Item κ ν} (h : m.takeLast s = some (it, m')) :
    m'.counters = m.counters := by
  simp only [takeLast, Option.map_eq_some_iff, Prod.mk.injEq] at h
  obtain ⟨_, _, _, rfl⟩ := h
  rfl

omit [DecidableEq κ] in
theorem counters_takeFree {m m' : Model κ ν} {s slot : Nat} (h : m.takeFree s = some (slot, m')) :
    m'.counters = m.counters := by
  unfold takeFree at h
  split at h
  · simp only [Option.some.injEq, Prod.mk.injEq] at h
    obtain ⟨_, rfl⟩ := h
    rfl
  · cases h

omit [DecidableEq κ] in
theorem isSome_takeLast (m : Model κ ν) (r : Nat) :
    (m.takeLast r).isSome ↔ ∃ sh, m.shards[r]? = some sh ∧ sh.items ≠ [] := by
  unfold takeLast
  cases m.shards[r]? with
  | none => simp
  | some sh => simp

omit [DecidableEq κ] in
/-- With `s`'s own list empty, the search through the other shards, in the
order `s+1, s+2, …` cyclically, finds a last item exactly when some list
holds an item. -/
theorem foreign_isSome_iff (m : Model κ ν) {s : Nat} (hs : s < m.shards.size) (hown : m.takeLast s = none) :
    ((List.range' 1 (m.shards.size - 1)).findSome? fun o => m.takeLast ((s + o) % m.shards.size)).isSome =
      m.hasItems := by
  rw [Bool.eq_iff_iff, List.findSome?_isSome_iff, hasItems, Array.any_eq_true]
  constructor
  · rintro ⟨o, -, ho⟩
    obtain ⟨sh, hsh, hne⟩ := (isSome_takeLast m _).1 ho
    obtain ⟨hr, rfl⟩ := Array.getElem?_eq_some_iff.1 hsh
    exact ⟨_, hr, by simpa using hne⟩
  · rintro ⟨r, hr, hne⟩
    have hrs : r ≠ s := by
      rintro rfl
      have : (m.takeLast r).isSome :=
        (isSome_takeLast m r).2 ⟨_, Array.getElem?_eq_getElem hr, by simpa using hne⟩
      rw [hown] at this
      cases this
    obtain ⟨o, h1, h2, ho⟩ := exists_cyclic_offset hs hr hrs
    refine ⟨o, List.mem_range'_1.2 ⟨h1, by omega⟩, ?_⟩
    rw [ho]
    exact (isSome_takeLast m r).2 ⟨_, Array.getElem?_eq_getElem hr, by simpa using hne⟩

omit [DecidableEq κ] in
/-- A reclaim counts the events of `reclaimEvents`. -/
theorem counters_reclaim (m : Model κ ν) {s : Nat} (hs : s < m.shards.size) :
    (m.reclaim s).counters = m.counters.tally (m.reclaimEvents s) := by
  unfold reclaim reclaimEvents
  cases hspare : m.spare with
  | cons slot rest =>
    simp only [List.isEmpty_cons, Bool.not_false, if_true, Counters.tally_cons, Counters.tally_nil]
    rw [counters_record, counters_release]
  | nil =>
    simp only [List.isEmpty_nil, Bool.not_true, Bool.false_eq_true, if_false]
    cases hown : m.takeLast s with
    | some p =>
      obtain ⟨it, m'⟩ := p
      simp only [Option.isSome_some, if_true, Counters.tally_cons, Counters.tally_nil]
      rw [counters_release, counters_record, counters_takeLast hown]
    | none =>
      have hfor := foreign_isSome_iff m hs hown
      simp only [Option.isSome_none, Bool.false_eq_true, if_false]
      cases hfind : (List.range' 1 (m.shards.size - 1)).findSome? fun o => m.takeLast ((s + o) % m.shards.size) with
      | some p =>
        obtain ⟨it, m'⟩ := p
        rw [hfind, Option.isSome_some] at hfor
        obtain ⟨o, -, ho⟩ := List.exists_of_findSome?_eq_some hfind
        simp only [← hfor, if_true, Counters.tally_cons, Counters.tally_nil]
        rw [counters_release, counters_record, counters_record, counters_takeLast ho]
      | none =>
        rw [hfind, Option.isSome_none] at hfor
        simp only [← hfor, Bool.false_eq_true, if_false, Counters.tally_nil]

/-! ## Inserts and removals -/

/-- An insert counts the events of `upsertEvents`, given that a reclaim for
a shard with no free slot leaves it one and keeps an absent key absent, as
it does in every table the abstract table is the view of. -/
theorem counters_upsert (m : Model κ ν) {s : Nat} (hs : s < m.shards.size) (k : κ) (v : ν) (overwrite : Bool)
    (hretry : m.takeFree s = none → m.find? k = none →
      (m.reclaim s).find? k = none ∧ ((m.reclaim s).takeFree s).isSome) :
    (m.upsert s k v overwrite).2.counters = m.counters.tally (m.upsertEvents s k overwrite) := by
  unfold upsert upsertEvents acquireEvents
  rw [upsertWith]
  cases hk : m.find? k with
  | some it =>
    cases overwrite with
    | false => rfl
    | true =>
      simp only [Option.isSome_some, ↓reduceIte]
      rw [counters_promote _ _ (by rw [find?_record, find?_setValue, hk]; rfl), promotionEvent_record,
        promotionEvent_setValue]
      rfl
  | none =>
    cases htake : m.takeFree s with
    | some p =>
      obtain ⟨slot, m'⟩ := p
      simp only [Option.isSome_some, Option.isSome_none, Bool.false_eq_true, ↓reduceIte]
      rw [counters_record, ← counters_takeFree htake]
      rfl
    | none =>
      obtain ⟨hk', htake'⟩ := hretry htake hk
      obtain ⟨⟨slot, m''⟩, htake''⟩ := Option.isSome_iff_exists.1 htake'
      simp only [Option.isSome_none, Bool.false_eq_true, ↓reduceIte]
      rw [upsertWith, hk', htake'']
      dsimp only
      rw [counters_record, counters_modifyShard, counters_takeFree htake'', counters_reclaim m hs,
        Counters.tally_append]
      rfl

theorem find?_erase_of_ne (m : Model κ ν) {k k' : κ} (hne : k' ≠ k) : (m.erase k).find? k' = m.find? k' := by
  simp only [find?, erase, Array.toList_map, List.findSome?_map]
  congr 1
  funext sh
  simp only [Function.comp_apply, List.find?_filter]
  congr 1
  funext it
  by_cases h : it.key = k' <;> simp [h, hne]

theorem find?_remove_of_ne (m : Model κ ν) (s : Nat) {k k' : κ} (hne : k' ≠ k) :
    (m.remove s k).2.find? k' = m.find? k' := by
  unfold remove
  cases m.find? k with
  | none => rfl
  | some it =>
    dsimp only
    rw [find?_eq_of_items (map_items_release _ s it.slot), find?_record, find?_erase_of_ne m hne]

/-- Removing distinct keys that are all present counts one remove hit each. -/
theorem counters_removeAll (s : Nat) :
    ∀ (ks : List κ) (m : Model κ ν), ks.Nodup → (∀ k ∈ ks, (m.find? k).isSome) →
      (removeAll s ks m).2.counters = m.counters.tally (List.replicate ks.length .removeHit)
  | [], _, _, _ => rfl
  | k :: rest, m, hnodup, hpresent => by
    obtain ⟨hk, hrest⟩ := List.nodup_cons.1 hnodup
    have hremove : (m.remove s k).2.counters = m.counters.record .removeHit := by
      rw [counters_remove, if_pos (hpresent k List.mem_cons_self)]
      rfl
    have ih := counters_removeAll s rest (m.remove s k).2 hrest fun k' hk' => by
      rw [find?_remove_of_ne m s (ne_of_mem_of_not_mem hk' hk)]
      exact hpresent k' (List.mem_cons_of_mem k hk')
    simp only [removeAll, List.length_cons, List.replicate_succ, Counters.tally_cons]
    rw [ih, hremove]

end Model

/-! ## The table counts the events of its view -/

namespace Table

variable {κ ν : Type} [DecidableEq κ] [CacheKey κ] {t : Table κ ν} {order : List Nat}

omit [DecidableEq κ] [CacheKey κ] in
/-- The counters of a table are those of its view. -/
theorem counters_of_abstract {α : Type} {p : α × Table κ ν} {q : α × Model κ ν} (h : q = p.map id abstract) :
    p.2.counters = q.2.counters := by
  rw [h]
  rfl

/-- In the view of a table that keeps the invariant, a reclaim for a shard
with no free slot leaves it one and keeps an absent key absent. -/
theorem Invariant.reclaim_abstract_refills (hi : t.Invariant) (ha : t.index.Arranged t.homeOf order) {s : Nat}
    (hs : s < t.config.shards) (k : κ) (hfree : t.abstract.takeFree s = none) (hk : t.abstract.find? k = none) :
    (t.abstract.reclaim s).find? k = none ∧ ((t.abstract.reclaim s).takeFree s).isSome := by
  obtain ⟨sh, hsh⟩ := hi.placed.exists_shard hs
  have htake : t.takeFree s = none := by
    rw [takeFree_abstract hi.linked hi.placed] at hfree
    exact Option.map_eq_none_iff.1 hfree
  have hk' : t.find? k = none := by
    rcases hi.find?_cases k with ⟨hf, -⟩ | ⟨_, _, _, _, -, -, -, hm⟩
    · exact hf
    · rw [hm] at hk
      cases hk
  have hi₁ : (t.reclaim s).Invariant := (hi.shrink ha (reclaim_cases hi ha hs)).1.1
  rw [← hi.reclaim_abstract ha s, hi₁.find?_abstract, hi.find?_reclaim ha hs hk',
    takeFree_abstract hi₁.linked hi₁.placed]
  obtain ⟨slot, sh', hsh', hfree'⟩ :=
    hi.reclaim_free hs hsh ((hi.linked.takeFree_eq_none_iff hi.placed hsh).1 htake)
  refine ⟨rfl, ?_⟩
  -- the reclaimed slot is on the free list, so taking a free slot succeeds
  rw [Option.isSome_map, Option.isSome_iff_ne_none]
  intro hnone
  have hempty := (hi₁.linked.takeFree_eq_none_iff hi₁.placed hsh').1 hnone
  rw [hfree'] at hempty
  cases hempty

/-- The keys that `retain` removes, in bucket order. -/
theorem Invariant.refused_keys (hi : t.Invariant) (keep : κ → ν → Bool) :
    let ks := (t.listing.filter fun e => !keep e.1 e.2).map (·.1)
    ks.Nodup ∧ (∀ k ∈ ks, (t.abstract.find? k).isSome) ∧ ks.length = (t.abstract.refused keep).length := by
  intro ks
  have hkeys : (t.listing.map (·.1)).Nodup := by
    rw [listing, List.map_filterMap]
    refine hi.indexed_nodup.filterMap fun a b k ha hb => ?_
    simp only [Option.mem_def, Option.map_map, Option.map_eq_some_iff, Function.comp_apply] at ha hb
    obtain ⟨ea, hea, rfl⟩ := ha
    obtain ⟨eb, heb, hkey⟩ := hb
    exact hi.key_inj a b ea eb hea heb hkey.symm
  refine ⟨hkeys.sublist ((List.filter_sublist).map _), ?_, ?_⟩
  · intro k hk
    obtain ⟨⟨k', v⟩, hmem, rfl⟩ := List.mem_map.1 hk
    obtain ⟨slot, -, hslot⟩ := List.mem_filterMap.1 (List.mem_of_mem_filter hmem)
    obtain ⟨e, he, hkv⟩ := Option.map_eq_some_iff.1 hslot
    simp only [Prod.mk.injEq] at hkv
    rw [← hkv.1, hi.find?_abstract_of_entry he]
    rfl
  · exact ((hi.listing_perm.filter _).map _).length_eq

/-- A lookup that forgets its guard counts one get hit or get miss. -/
theorem Invariant.counters_lockForget (hi : t.Invariant) (s : Nat) (k : κ) :
    (t.lockForget s k).2.counters =
      t.counters.record (if (t.abstract.find? k).isSome then .getHit else .getMiss) := by
  unfold lockForget
  rcases hi.find?_cases k with ⟨hf, hm⟩ | ⟨start, depth, slot, e, hf, -, -, hm⟩
  · rw [hf, hm]
    rfl
  · rw [hf, hm]
    rfl

variable [DecidableEq ν]

/-- One call counts the events that its view reads off the abstract table. -/
theorem Invariant.counters_perform (hi : t.Invariant) (ha : t.index.Arranged t.homeOf order) {c : Call κ ν}
    (hc : c.Fits t.config.shards) :
    (t.perform c).2.counters = t.counters.tally (t.abstract.callEvents c) := by
  have hsize : ∀ s < t.config.shards, s < t.abstract.shards.size := fun s hs => by
    rw [shards_abstract, Array.size_map, hi.shards_size]
    exact hs
  cases c with
  | insert s k v =>
    exact (counters_of_abstract (upsertWith_abstract 2 t order hi ha (hc s rfl))).trans
      (Model.counters_upsert _ (hsize s (hc s rfl)) k v false (hi.reclaim_abstract_refills ha (hc s rfl) k))
  | insertOrSet s k v =>
    exact (counters_of_abstract (upsertWith_abstract 2 t order hi ha (hc s rfl))).trans
      (Model.counters_upsert _ (hsize s (hc s rfl)) k v true (hi.reclaim_abstract_refills ha (hc s rfl) k))
  | get s k => exact (counters_of_abstract (hi.get_abstract (hc s rfl) k)).trans (Model.counters_get _ s k)
  | contains s k => exact (counters_of_abstract (hi.contains_abstract s k)).trans (Model.counters_contains _ k)
  | set s k v => exact (counters_of_abstract (hi.set_abstract ha (hc s rfl) k v)).trans (Model.counters_set _ s k v)
  | remove s k => exact (counters_of_abstract (hi.remove_abstract s k)).trans (Model.counters_remove _ s k)
  | lock s k newValue =>
    exact (counters_of_abstract (hi.lockWith_abstract ha (hc s rfl) k fun g => (newValue.getD g.value, g))).trans
      (Model.counters_lockWith _ s k _)
  | update s k f =>
    exact (counters_of_abstract (hi.lockWith_abstract ha (hc s rfl) k fun g => (f g.value, g.value))).trans
      (Model.counters_lockWith _ s k _)
  | compareAndSwap s k expected new =>
    show (t.compareAndSwap s k expected new).2.counters = _
    rw [compareAndSwap_eq]
    exact (counters_of_abstract (hi.lockWith_abstract ha (hc s rfl) k fun g =>
      if g.value = expected then (new, Except.ok g.value) else (g.value, Except.error (some g.value)))).trans
      (Model.counters_lockWith _ s k _)
  | retain s keep =>
    obtain ⟨hnodup, hpresent, hlength⟩ := hi.refused_keys keep
    show (removeAll s _ t).2.counters = _
    rw [counters_of_abstract (removeAll_abstract _ t order hi ha (hc s rfl)),
      Model.counters_removeAll s _ _ hnodup hpresent, hlength]
    rfl
  | process f =>
    show (t.mapValues f).counters = t.counters
    exact (mapValues_frame t f).2.2

/-- The events of a run of calls, each call's read off the abstract table
before it. -/
def runEvents (t : Table κ ν) : List (Call κ ν) → List Event
  | [] => []
  | c :: cs => t.abstract.callEvents c ++ (t.perform c).2.runEvents cs

/-- A run of calls counts the events of the run. -/
theorem Invariant.counters_run :
    ∀ (cs : List (Call κ ν)) (t : Table κ ν) (order : List Nat), t.Invariant → t.index.Arranged t.homeOf order →
      (∀ c ∈ cs, c.Fits t.config.shards) → (t.run cs).2.counters = t.counters.tally (t.runEvents cs)
  | [], _, _, _, _, _ => rfl
  | c :: cs, t, order, hi, ha, hcs => by
    have hc := hcs c List.mem_cons_self
    obtain ⟨hi₁, ha₁, hcfg⟩ := hi.keeps_perform ha hc
    have ih := Invariant.counters_run cs (t.perform c).2 _ hi₁ ha₁ fun c' hc' => by
      rw [hcfg]
      exact hcs c' (List.mem_cons_of_mem c hc')
    show ((t.perform c).2.run cs).2.counters = _
    rw [ih, hi.counters_perform ha hc, runEvents, Counters.tally_append]

/-- A run of calls through handles of the shards ends in a reachable table. -/
theorem Reach.after_run {t : Table κ ν} {order : List Nat} (hr : t.Reach order) :
    ∀ cs : List (Call κ ν), (∀ c ∈ cs, c.Fits t.config.shards) → ∃ order', (t.run cs).2.Reach order'
  | [], _ => ⟨order, hr⟩
  | c :: cs, hcs => by
    have hc := hcs c List.mem_cons_self
    obtain ⟨hi, ha⟩ := hr.invariant_arranged
    have hcfg := (hi.keeps_perform ha hc).2.2
    exact (Reach.call c hr hc).after_run cs fun c' hc' => by
      rw [hcfg]
      exact hcs c' (List.mem_cons_of_mem c hc')

omit [DecidableEq ν] in
theorem snapshot_lockForget (t : Table κ ν) (s : Nat) (k : κ) :
    (t.lockForget s k).2.snapshot =
      (t.lockForget s k).2.counters.snapshot t.len t.config.capacity t.config.buckets t.registered := by
  unfold lockForget
  split <;> rfl

end Table

end ShardCache
