import ShardCache.Proofs.Invariant
/-!
# Every operation is a reshuffle, a drop or an addition

The moves of the table, one by one, and what each does to the frame, the
entries, the lists and the pool; then the operations built from them, each
classified as one of the three kinds of steps of `ShardCache.Table.Invariant`:

* setting a value, counting an event and promoting a slot are reshuffles, as
  is a reclaim from the spare pool;
* removing a present key, and evicting the tail of a list, are drops;
* taking a free slot and publishing a new entry in it is an addition.

Results:
* `reclaim_cases`: a reclaim is a reshuffle or the drop of the entry it
  evicts.
* `drop_remove`, `drop_evict`: a removal of a present key and an eviction
  are drops.
* `added_publish`: publishing a new entry in a slot taken from the free
  stack is an addition.
-/
namespace ShardCache

namespace Table

variable {κ ν : Type}

/-! ## The primitives -/

section Primitives

variable {t : Table κ ν}

theorem entry?_writeSlot {slot : Nat} (c : Option (Entry κ ν)) (hs : slot < t.slots.size) (y : Nat) :
    Table.entry? (t.writeSlot slot c) y = if y = slot then c else t.entry? y := by
  unfold entry? writeSlot
  rw [Array.getElem?_setIfInBounds]
  by_cases hy : y = slot
  · subst hy
    simp [hs]
  · simp [hy, Ne.symm hy]

theorem frame_record (t : Table κ ν) (e : Event) : Frame t (t.record e) :=
  ⟨rfl, rfl, rfl, rfl, rfl, rfl, fun _ sh h => ⟨sh, h, rfl, rfl⟩⟩

theorem frame_writeSlot (t : Table κ ν) (slot : Nat) (c : Option (Entry κ ν)) :
    Frame t (t.writeSlot slot c) :=
  ⟨rfl, rfl, rfl, Array.size_setIfInBounds, rfl, rfl, fun _ sh h => ⟨sh, h, rfl, rfl⟩⟩

theorem frame_setLinks (t : Table κ ν) (y : UInt32) (w : Link) : Frame t (t.setLinks y w) :=
  ⟨rfl, rfl, rfl, rfl, rfl, rfl, fun _ sh h => ⟨sh, h, rfl, rfl⟩⟩

/-- Changing one shard in a way that keeps quotas and probe runs keeps the
frame. -/
theorem frame_modifyShard (t : Table κ ν) (s : Nat) (f : Shard → Shard)
    (hq : ∀ sh, (f sh).quota = sh.quota) (hh : ∀ sh, (f sh).run = sh.run) :
    Frame t (t.modifyShard s f) where
  config := rfl
  hasher := rfl
  registered := rfl
  slots_size := rfl
  index_size := rfl
  shards_size := Array.size_modify
  shard j sh' h := by
    rw [getElem?_shards_modifyShard] at h
    split at h
    · obtain ⟨sh, hsh, rfl⟩ := Option.map_eq_some_iff.1 h
      exact ⟨sh, hsh, hq sh, hh sh⟩
    · exact ⟨sh', h, rfl, rfl⟩

theorem FreeLe.congr {t' : Table κ ν} (h : t.FreeLe) (hs : t'.shards = t.shards) : t'.FreeLe :=
  fun j sh hj => h j sh (hs ▸ hj)

theorem freeLe_modifyShard {s : Nat} {f : Shard → Shard}
    (hf : ∀ sh, t.shards[s]? = some sh → (f sh).freeLen ≤ (f sh).quota) (h : t.FreeLe) :
    (t.modifyShard s f).FreeLe := by
  intro j sh' hj
  rw [getElem?_shards_modifyShard] at hj
  split at hj
  · rename_i hsj
    subst hsj
    obtain ⟨sh, hsh, rfl⟩ := Option.map_eq_some_iff.1 hj
    exact hf sh hsh
  · exact h j sh' hj

theorem frame_unlinkSlot (t : Table κ ν) (slot : Nat) : Frame t (t.unlinkSlot slot) where
  config := by simp
  hasher := rfl
  registered := rfl
  slots_size := by simp
  index_size := by simp
  shards_size := by simp
  shard j sh' h := by
    rw [shards_unlinkSlot, Array.getElem?_map] at h
    obtain ⟨sh, hsh, rfl⟩ := Option.map_eq_some_iff.1 h
    exact ⟨sh, hsh, rfl, rfl⟩

theorem freeLe_unlinkSlot {slot : Nat} (h : t.FreeLe) : (t.unlinkSlot slot).FreeLe := by
  intro j sh' hj
  rw [shards_unlinkSlot, Array.getElem?_map] at hj
  obtain ⟨sh, hsh, rfl⟩ := Option.map_eq_some_iff.1 hj
  exact h j sh hsh

theorem frame_linkHead (t : Table κ ν) (s slot : Nat) : Frame t (t.linkHead s slot) :=
  (((frame_setLinks _ _ _).trans (frame_setLinks _ _ _)).trans (frame_setLinks _ _ _)).trans
    (frame_modifyShard _ s _ (fun _ => rfl) (fun _ => rfl))

theorem pool_linkHead {s slot : Nat} (hs : s < t.shards.size) :
    (t.linkHead s slot).pool.Perm (slot :: t.pool) := by
  have h : (t.linkHead s slot).pool = (t.modifyShard s (·.link slot)).pool := pool_congr (by simp) (by simp)
  rw [h]
  exact pool_link hs

theorem listed_linkHead {s slot : Nat} (hs : s < t.shards.size) :
    (t.linkHead s slot).listed.Perm (slot :: t.listed) := by
  have h : (t.linkHead s slot).listed = (t.modifyShard s (·.link slot)).listed := listed_congr (by simp)
  rw [h]
  exact listed_link hs

theorem freeLe_linkHead {s slot : Nat} (h : t.FreeLe) : (t.linkHead s slot).FreeLe :=
  (freeLe_modifyShard (f := fun sh => sh.link slot) (fun sh hsh => h s sh hsh) h).congr (by simp)

theorem frame_pushFree (t : Table κ ν) (s slot : Nat) : Frame t (t.pushFree s slot) := by
  unfold pushFree
  split
  · exact (frame_setLinks _ _ _).trans (frame_modifyShard _ s (·.pushFree slot) (fun _ => rfl) (fun _ => rfl))
  · exact Frame.refl t

theorem frame_release (t : Table κ ν) (s slot : Nat) : Frame t (t.release s slot) := by
  unfold release
  split
  · exact (frame_pushFree t s slot).trans
      (frame_modifyShard _ s (fun sh => { sh with freeLen := sh.freeLen + 1 }) (fun _ => rfl) (fun _ => rfl))
  · exact ⟨rfl, rfl, rfl, rfl, rfl, rfl, fun _ sh h => ⟨sh, h, rfl, rfl⟩⟩

/-- A release keeps every free stack within its quota: the slot goes on the
stack only while the stack is below it. -/
theorem freeLe_release {s slot : Nat} (h : t.FreeLe) : (t.release s slot).FreeLe := by
  by_cases hroom : (t.shards[s]?.map (·.hasRoom)).getD false = true
  · intro j sh' hj
    rw [shards_release_push slot hroom, Array.getElem?_modify] at hj
    split at hj
    · rename_i hsj
      subst hsj
      obtain ⟨sh, hsh, rfl⟩ := Option.map_eq_some_iff.1 hj
      rw [hsh] at hroom
      have hlt := (Shard.hasRoom_iff sh).1 (by simpa using hroom)
      simp only [Shard.quota_pushFree]
      omega
    · exact h j sh' hj
  · rw [release, if_neg hroom]
    exact h

theorem frame_unindex (t : Table κ ν) (slot start depth : Nat) :
    Frame t (t.unindex slot start depth) :=
  ⟨rfl, rfl, rfl, Array.size_setIfInBounds, Index.size_removeAt _ _ _ _, rfl,
    fun _ sh h => ⟨sh, h, rfl, rfl⟩⟩

theorem tag_unindex {slot : Nat} (start depth : Nat) (hs : slot < t.slots.size) (y : Nat) :
    (t.unindex slot start depth).tag y = if y = slot then none else t.tag y := by
  have h : Table.entry? (t.unindex slot start depth) y = Table.entry? (t.writeSlot slot none) y := rfl
  rw [tag, tag, h, entry?_writeSlot none hs]
  split <;> rfl

/-- The slots of a table after taking `slot` out of its places are placed, and `slot` is in
none of them. -/
theorem Placed.of_taken {t' : Table κ ν} {slot : Nat} (hp : t.Placed) (hf : Frame t t')
    (hpool : t.pool.Perm (slot :: t'.pool)) : t'.Placed ∧ slot ∉ t'.pool :=
  ⟨hf.placed hp ((List.sublist_cons_self _ _).subperm.trans hpool.symm.subperm),
    (List.nodup_cons.1 (hpool.nodup_iff.1 hp.nodup)).1⟩

/-- Releasing a slot that a step took out of every place, to a shard of the table, keeps the
table linked. -/
theorem Linked.release_taken {t' : Table κ ν} {s slot : Nat} (hl : t'.Linked) (hp : t.Placed)
    (hf : Frame t t') (hpool : t.pool.Perm (slot :: t'.pool)) (hs : s < t.config.shards) :
    (t'.release s slot).Linked := by
  obtain ⟨hp', hnew⟩ := hp.of_taken hf hpool
  exact hl.release hp' (by rw [hf.config]; exact hs)
    (by rw [hf.config]; exact hp.lt slot (hpool.mem_iff.2 List.mem_cons_self)) hnew

/-- The table after popping the top free slot of shard `s`. -/
theorem takeFree_spec (hl : t.Linked) (hp : t.Placed) {t' : Table κ ν} {s slot : Nat}
    (h : t.takeFree s = some (slot, t')) :
    Frame t t' ∧ t'.index = t.index ∧ t'.slots = t.slots ∧ t'.len = t.len ∧
      t.pool.Perm (slot :: t'.pool) ∧ t'.listed.Perm t.listed ∧ (t.FreeLe → t'.FreeLe) ∧
        t'.Linked := by
  obtain ⟨sh, hsh, hhead, hl', rfl⟩ := hl.takeFree hp h
  obtain ⟨rest, hfr⟩ : ∃ rest, sh.free = slot :: rest := by
    cases hf : sh.free with
    | nil => rw [hf] at hhead; cases hhead
    | cons a rest =>
      rw [hf] at hhead
      cases hhead
      exact ⟨rest, rfl⟩
  set f := fun sh : Shard => { sh.popFree (t.linkOf slot.toUInt32).succ with freeLen := sh.freeLen - 1 }
  have hshards : ((t.setLinks slot.toUInt32 Link.detached).modifyShard s f).shards =
      (t.modifyShard s f).shards := by simp
  have hpool : t.pool.Perm (slot :: (t.modifyShard s f).pool) :=
    pool_modifyShard_take hsh (by simp [f, hfr, List.perm_middle])
  have hpool' : ((t.setLinks slot.toUInt32 Link.detached).modifyShard s f).pool =
      (t.modifyShard s f).pool := pool_congr hshards rfl
  have hlisted : ((t.setLinks slot.toUInt32 Link.detached).modifyShard s f).listed =
      (t.modifyShard s f).listed := listed_congr hshards
  refine ⟨(frame_setLinks _ _ _).trans (frame_modifyShard _ s f (fun _ => rfl) (fun _ => rfl)), rfl, rfl,
    rfl, hpool' ▸ hpool, hlisted ▸ listed_modifyShard_of_recent hsh rfl, fun hfree => ?_, hl'⟩
  refine (freeLe_modifyShard (fun sh' hsh' => ?_) hfree).congr hshards
  have := hfree s sh' hsh'
  show sh'.freeLen - 1 ≤ sh'.quota
  omega

/-- The slot popped off a free stack is on no list, and within the arena. -/
theorem Invariant.takeFree_fresh [CacheKey κ] (hi : t.Invariant) {t' : Table κ ν} {s slot : Nat}
    (h : t.takeFree s = some (slot, t')) : slot ∉ t'.listed ∧ slot < t'.slots.size := by
  obtain ⟨-, -, hslots, -, hpool, -, -⟩ := takeFree_spec hi.linked hi.placed h
  have hnd := hpool.nodup_iff.1 hi.pool_nodup
  refine ⟨fun hl => (List.nodup_cons.1 hnd).1 (mem_pool_of_mem_listed hl), ?_⟩
  rw [hslots, hi.slots_size, ← hi.mem_pool]
  exact hpool.mem_iff.2 List.mem_cons_self

theorem tag_eq_of_slots {t' : Table κ ν} (h : t'.slots = t.slots) : t'.tag = t.tag := by
  funext y
  simp only [tag, entry?, h]

/-- The slot `v` taken off its recency list, and so out of the pool; the
entries and the index stay, and the arena still forms the lists. -/
structure Unlisted (t t' : Table κ ν) (v : Nat) : Prop where
  frame : Frame t t'
  index : t'.index = t.index
  slots : t'.slots = t.slots
  len : t'.len = t.len
  pool : t.pool.Perm (v :: t'.pool)
  listed : t.listed.Perm (v :: t'.listed)
  free_le : t.FreeLe → t'.FreeLe
  linked : t'.Linked

/-- Taking the tail of shard `s`'s list unlinks the last slot of the list. -/
theorem unlisted_takeTail (hl : t.Linked) (hp : t.Placed) {t' : Table κ ν} {s slot : Nat}
    (h : t.takeTail s = some (slot, t')) : Unlisted t t' slot := by
  obtain ⟨sh, hsh, hlast, rfl⟩ := hl.takeTail hp h
  have hv : slot ∈ t.listed := mem_listed.2 ⟨s, sh, hsh, List.mem_of_getLast? hlast⟩
  have hx := hp.lt_of_listed hv
  obtain ⟨hpool, hlisted⟩ := pool_unlinkSlot hp.nodup hv
  exact ⟨frame_unlinkSlot t slot, by simp, by simp, by simp, hpool, hlisted, freeLe_unlinkSlot,
    hl.unlinkSlot hp hx ((hl.isLinked_iff hp hx).2 hv)⟩

theorem Unlisted.record {t' : Table κ ν} {v : Nat} (h : Unlisted t t' v) (e : Event) :
    Unlisted t (t'.record e) v :=
  ⟨h.frame.trans (frame_record t' e), h.index, h.slots, h.len, h.pool, h.listed, h.free_le,
    h.linked.record e⟩

end Primitives

/-! ## Reshuffles -/

theorem reshuffle_record (t : Table κ ν) (e : Event) : Reshuffle t (t.record e) :=
  ⟨frame_record t e, rfl, rfl, fun _ => rfl, List.Perm.refl _, List.Perm.refl _, id,
    fun hl _ => hl.record e⟩

theorem reshuffle_setValue (t : Table κ ν) (slot : Nat) (v : ν) : Reshuffle t (t.setValue slot v) := by
  unfold setValue
  split
  · rename_i e he
    refine ⟨frame_writeSlot t slot _, rfl, rfl, fun y => ?_, List.Perm.refl _, List.Perm.refl _, id,
      fun hl _ => hl.of_shards_eq rfl rfl rfl rfl⟩
    rw [tag, tag, entry?_writeSlot _ (lt_size_of_entry he)]
    by_cases hy : y = slot
    · subst hy
      simp [he]
    · simp [hy]
  · exact Reshuffle.refl t

/-- A promotion moves a slot of a list from the list that holds it to the front of shard
`s`'s list: only the lists' order changes. -/
theorem reshuffle_promote {t : Table κ ν} (hl : t.Linked) (hp : t.Placed) {s slot : Nat}
    (hs : s < t.config.shards) (hx : slot < t.config.capacity) :
    Reshuffle t (t.promote s slot) := by
  unfold promote
  split
  · exact reshuffle_record t _
  · split
    · rename_i hlink
      have hlisted := hl.listed_of_isLinked hp hx hlink
      obtain ⟨hpool, hlist⟩ := pool_unlinkSlot hp.nodup hlisted
      have hf₁ := frame_unlinkSlot t slot
      obtain ⟨hp₁, hnew⟩ := hp.of_taken hf₁ hpool
      have hs₁ : s < (t.unlinkSlot slot).shards.size := by
        rw [hf₁.shards_size, hp.shards_size]
        exact hs
      set t₂ := (t.unlinkSlot slot).linkHead s slot
      have hl₂ : t₂.Linked :=
        (hl.unlinkSlot hp hx hlink).linkHead hp₁ (by simpa using hs) (by simpa using hx) hnew
      refine ⟨(hf₁.trans (frame_linkHead _ s slot)).trans (frame_record _ _), by simp [t₂], by simp [t₂],
        fun _ => by rw [tag_eq_of_slots (show (t₂.record .promotion).slots = t.slots by simp [t₂])], ?_, ?_,
        fun h => (freeLe_linkHead (freeLe_unlinkSlot h)).congr (shards_record t₂ _),
        fun _ _ => hl₂.record _⟩
      · rw [listed_record]
        exact (listed_linkHead hs₁).trans hlist.symm
      · rw [pool_record]
        exact (pool_linkHead hs₁).trans hpool.symm
    · exact reshuffle_record t _

/-- A reshuffle followed by a promotion of a data slot through one of the shards is a
reshuffle. -/
theorem Invariant.reshuffle_promote_after [CacheKey κ] {t t₁ : Table κ ν} (hi : t.Invariant)
    (h : Reshuffle t t₁) {s slot : Nat} (hs : s < t.config.shards) (hx : slot < t.config.capacity) :
    Reshuffle t (t₁.promote s slot) :=
  h.trans (reshuffle_promote (h.linked hi.linked hi.placed) (h.frame.placed hi.placed h.pool.subperm)
    (by rw [h.frame.config]; exact hs) (by rw [h.frame.config]; exact hx))

theorem reshuffle_mapValues (t : Table κ ν) (f : ν → ν) : Reshuffle t (t.mapValues f) := by
  unfold mapValues
  -- each step of the pass is a reshuffle, whatever table it starts from
  generalize t.index.slots = l
  induction l generalizing t with
  | nil => exact Reshuffle.refl t
  | cons slot rest ih =>
    rw [List.foldl_cons]
    refine Reshuffle.trans ?_ (ih _)
    split
    · exact reshuffle_setValue _ _ _
    · exact Reshuffle.refl _

/-- A reclaim from the spare pool hands the spare slot to shard `s`. -/
theorem reshuffle_reclaim_spare {t : Table κ ν} (hl : t.Linked) (hp : t.Placed) {s slot : Nat}
    {rest : List Nat} (hspare : t.spare = slot :: rest) (hs : s < t.config.shards) :
    Reshuffle t (({ t with spare := rest }.release s slot).record .foreignReclaim) := by
  set t₀ : Table κ ν := { t with spare := rest }
  have hf₀ : Frame t t₀ := ⟨rfl, rfl, rfl, rfl, rfl, rfl, fun _ sh h => ⟨sh, h, rfl, rfl⟩⟩
  have hs₀ : s < t₀.shards.size := by
    show s < t.shards.size
    rw [hp.shards_size]
    exact hs
  have htaken : t.pool.Perm (slot :: t₀.pool) := by
    show (t.shards.toList.flatMap (fun sh => sh.recent ++ sh.free) ++ t.spare).Perm
      (slot :: (t.shards.toList.flatMap (fun sh => sh.recent ++ sh.free) ++ rest))
    rw [hspare]
    exact List.perm_middle
  -- the pool without the spare slot is still linked: its slots are detached
  have hl₀ : t₀.Linked :=
    { hl with spare := fun x hx => hl.spare x (by rw [hspare]; exact List.mem_cons_of_mem _ hx) }
  refine ⟨(hf₀.trans (frame_release t₀ s slot)).trans (frame_record _ _), ?_, ?_, ?_,
    listed_release hs₀, (pool_release hs₀).trans htaken.symm, fun h => freeLe_release h,
    fun _ _ => (hl₀.release_taken hp hf₀ htaken hs).record _⟩
  · rw [index_record, index_release]
  · rw [len_record, len_release]
  · intro y
    rw [tag_eq_of_slots]
    rw [slots_record, slots_release]

/-! ## Drops -/

/-- Taking the indexed slot `x` out of the index and the arena, and then off
its list back to shard `s`, is a drop. -/
theorem drop_unindex_detach [DecidableEq κ] [CacheKey κ] {t : Table κ ν} (hi : t.Invariant)
    {s x start depth : Nat} (hs : s < t.config.shards) (hx : x ∈ t.index.slots) (e : Event) :
    Drop t (((t.unindex x start depth).record e).detachRemoved s x) x start depth := by
  set t₂ := (t.unindex x start depth).record e with ht₂
  have hxl : x ∈ t₂.listed := hi.listed.mem_iff.2 hx
  have hxc : x < t.config.capacity := hi.indexed_lt hx
  have hxs : x < t.slots.size := by
    rw [hi.slots_size]
    exact hxc
  have hf₂ : Frame t t₂ := (frame_unindex t x start depth).trans (frame_record _ e)
  have hl₂ : t₂.Linked := hi.linked.of_shards_eq rfl rfl rfl rfl
  have hp₂ : t₂.Placed := hf₂.placed hi.placed (List.Perm.refl _).subperm
  have hlink : t₂.isLinked x = true := (hl₂.isLinked_iff hp₂ hxc).2 hxl
  have hdetach : t₂.detachRemoved s x = (t₂.unlinkSlot x).release s x := by
    simp [detachRemoved, hlink]
  obtain ⟨hpool, hlist⟩ := pool_unlinkSlot hp₂.nodup hxl
  have hf₃ := frame_unlinkSlot t₂ x
  have hs₃ : s < (t₂.unlinkSlot x).shards.size := by
    rw [hf₃.shards_size, hf₂.shards_size, hi.shards_size]
    exact hs
  rw [hdetach]
  refine ⟨(hf₂.trans hf₃).trans (frame_release _ s x), ?_, ?_, ?_,
    hlist.trans ((listed_release hs₃).symm.cons x), (pool_release hs₃).trans hpool.symm,
    fun h => freeLe_release (freeLe_unlinkSlot h),
    fun _ _ => (hl₂.unlinkSlot hp₂ hxc hlink).release_taken hp₂ hf₃ hpool hs⟩
  · rw [index_release]
    rfl
  · rw [len_release]
    rfl
  · intro y
    rw [tag_eq_of_slots (slots_release _ s x)]
    exact tag_unindex start depth hxs y

/-- Evicting a slot that was taken off its list takes its entry out of the
bucket where the probe from its home finds it, and then releases the slot. -/
theorem evict_eq [DecidableEq κ] [CacheKey κ] {t t₁ : Table κ ν} {order : List Nat} (hi : t.Invariant)
    (ha : t.index.Arranged t.homeOf order) {v : Nat} (h : Unlisted t t₁ v) (s : Nat) :
    ∃ p, t.index.get p = some v ∧ t₁.evict s v =
      ((t₁.unindex v (t.homeOf v) (t.index.gap (t.homeOf v) p)).record .eviction).release s v := by
  have hvx : v ∈ t.index.slots := hi.listed.mem_iff.1 (h.listed.mem_iff.2 (List.mem_cons_self ..))
  obtain ⟨p, hp⟩ := Index.mem_slots.1 hvx
  obtain ⟨e, he⟩ := Option.isSome_iff_exists.1 ((hi.entry_iff v).2 hvx)
  have he₁ : t₁.entry? v = some e := by
    rw [← he]
    simp only [Table.entry?, h.slots]
  have hhome : t₁.index.home e.hash = t.homeOf v := by
    rw [h.index, homeOf_of_entry he]
  have hprobe : t₁.index.probe (t.homeOf v) (· == v) = .hit (t.index.gap (t.homeOf v) p) v := by
    rw [h.index]
    exact ha.probe_self hp
  refine ⟨p, hp, ?_⟩
  unfold evict
  rw [he₁]
  simp only [hhome, hprobe]

/-- Evicting a slot that was taken off its list: its entry leaves the index
from the bucket where the probe from its home finds it. -/
theorem drop_evict [DecidableEq κ] [CacheKey κ] {t t₁ : Table κ ν} {order : List Nat} (hi : t.Invariant)
    (ha : t.index.Arranged t.homeOf order) {s v : Nat} (h : Unlisted t t₁ v) (hs : s < t.config.shards) :
    ∃ start depth, t.index.get (t.index.position start depth) = some v ∧
      Drop t (t₁.evict s v) v start depth := by
  obtain ⟨p, hp, hevict⟩ := evict_eq hi ha h s
  obtain ⟨e, he⟩ := Option.isSome_iff_exists.1 ((hi.entry_iff v).2 (Index.mem_slots.2 ⟨p, hp⟩))
  have hpos : t.index.position (t.homeOf v) (t.index.gap (t.homeOf v) p) = p := by
    apply Index.position_gap _ (Index.get_lt hp)
    rw [homeOf_of_entry he]
    exact hi.home_lt _
  have hhome₁ : t₁.homeOf = t.homeOf := by
    funext y
    exact homeOf_congr (by rw [h.index]) (by rw [tag_eq_of_slots h.slots])
  have hvs : v < t₁.slots.size := by rw [h.slots]; exact lt_size_of_entry he
  refine ⟨t.homeOf v, t.index.gap (t.homeOf v) p, by rw [hpos]; exact hp, ?_⟩
  rw [hevict]
  set t₂ := (t₁.unindex v (t.homeOf v) (t.index.gap (t.homeOf v) p)).record .eviction
  have hf₂ : Frame t t₂ := (h.frame.trans (frame_unindex t₁ _ _ _)).trans (frame_record _ _)
  have hs₂ : s < t₂.shards.size := by
    rw [hf₂.shards_size, hi.shards_size]
    exact hs
  have hrel : (t₂.release s v).pool.Perm (v :: t₁.pool) := pool_release hs₂
  refine ⟨hf₂.trans (frame_release _ s v), ?_, ?_, ?_, h.listed.trans ((listed_release hs₂).symm.cons v),
    hrel.trans h.pool.symm, fun hf => freeLe_release (h.free_le hf),
    fun _ _ => (h.linked.of_shards_eq rfl rfl rfl rfl : t₂.Linked).release_taken hi.placed hf₂ h.pool hs⟩
  · rw [index_release]
    show t₁.index.removeAt t₁.homeOf _ _ = _
    rw [hhome₁, h.index]
  · rw [len_release]
    show t₁.len - 1 = t.len - 1
    rw [h.len]
  · intro y
    rw [tag_eq_of_slots (slots_release _ s v)]
    show (t₁.unindex v (t.homeOf v) (t.index.gap (t.homeOf v) p)).tag y = _
    rw [tag_unindex _ _ hvs y, tag_eq_of_slots h.slots]

/-- A reclaim either hands over a spare slot, or evicts the tail of a list,
or finds nothing to take. -/
theorem reclaim_cases [DecidableEq κ] [CacheKey κ] {t : Table κ ν} {order : List Nat} (hi : t.Invariant)
    (ha : t.index.Arranged t.homeOf order) {s : Nat} (hs : s < t.config.shards) :
    Reshuffle t (t.reclaim s) ∨
      ∃ v start depth, t.index.get (t.index.position start depth) = some v ∧
        Drop t (t.reclaim s) v start depth := by
  unfold reclaim
  split
  · rename_i slot rest hspare
    exact .inl (reshuffle_reclaim_spare hi.linked hi.placed hspare hs)
  · split
    · rename_i victim t' htail
      obtain ⟨start, depth, hget, hdrop⟩ :=
        drop_evict hi ha (unlisted_takeTail hi.linked hi.placed htail) hs
      exact .inr ⟨victim, start, depth, hget, hdrop⟩
    · split
      · rename_i victim t' hforeign
        obtain ⟨offset, -, htail⟩ := List.exists_of_findSome?_eq_some hforeign
        obtain ⟨start, depth, hget, hdrop⟩ :=
          drop_evict hi ha ((unlisted_takeTail hi.linked hi.placed htail).record .foreignReclaim) hs
        exact .inr ⟨victim, start, depth, hget, hdrop⟩
      · exact .inl (Reshuffle.refl t)

/-! ## Additions -/

/-- Publishing a new entry in a slot popped from shard `s`'s free stack, at
the bucket where placing the entry's hash puts it, is an addition. -/
theorem added_publish [CacheKey κ] {t t₁ : Table κ ν} (hi : t.Invariant) {s y pos : Nat} {e : Entry κ ν}
    (h : t.takeFree s = some (y, t₁)) (hs : s < t.config.shards)
    (hpos : t.index.place (t.index.home e.hash) y = t.index.write pos (some y)) :
    Added t (t₁.publish s y pos e) y e := by
  obtain ⟨hf, hindex, hslots, hlen, hpool, hlisted, hfree, hl₁⟩ := takeFree_spec hi.linked hi.placed h
  have hyc : y < t.config.capacity := hi.mem_pool.1 (hpool.mem_iff.2 (List.mem_cons_self ..))
  have hy : y < t₁.slots.size := by
    rw [hslots, hi.slots_size]
    exact hyc
  set t₂ := t₁.writeSlot y (some e) with ht₂
  set t₃ : Table κ ν := { t₂ with index := t₂.index.write pos (some y), len := t₂.len + 1 } with ht₃
  have hf₃ : Frame t t₃ := (hf.trans (frame_writeSlot _ y _)).trans
    ⟨rfl, rfl, rfl, rfl, Index.size_write _ _ _, rfl, fun _ sh h => ⟨sh, h, rfl, rfl⟩⟩
  have hs₃ : s < t₃.shards.size := by
    rw [hf₃.shards_size, hi.shards_size]
    exact hs
  have hpub : t₁.publish s y pos e = (t₃.linkHead s y).record .insertNew := rfl
  rw [hpub]
  refine ⟨(hf₃.trans (frame_linkHead _ s y)).trans (frame_record _ _), ?_, ?_, ?_, ?_, ?_,
    fun h₀ => (freeLe_linkHead (hfree h₀)).congr (shards_record _ _), fun _ _ => ?_⟩
  · show t₁.index.write pos (some y) = _
    rw [hindex, hpos]
  · show t₁.len + 1 = _
    rw [hlen]
  · intro z
    show t₂.tag z = _
    rw [tag, entry?_writeSlot _ hy]
    split
    · rfl
    · show t₁.tag z = t.tag z
      rw [tag_eq_of_slots hslots]
  · rw [listed_record]
    exact (listed_linkHead hs₃).trans (hlisted.cons y)
  · rw [pool_record]
    exact (pool_linkHead hs₃).trans hpool.symm
  · -- the popped slot is in no place: it goes first on shard `s`'s list
    obtain ⟨hp₃, hnew⟩ := hi.placed.of_taken hf₃ hpool
    exact ((hl₁.of_shards_eq rfl rfl rfl rfl : t₃.Linked).linkHead hp₃
      (by rw [hf₃.config]; exact hs) (by rw [hf₃.config]; exact hyc) hnew).record _

end Table

end ShardCache
