import Mathlib.Data.List.Nodup
import ShardCache.Table.Reclaim
/-!
# Where the slots are

Every data slot is on a recency list, on a free stack or in the spare pool.
`Table.pool` lists them all, shard by shard and then the spare pool, and
`Table.listed` lists those on recency lists. A step that moves slots changes
one shard at a time (`modifyShard`); `pool_modifyShard` and
`listed_modifyShard` say what that does: the shard's old slots go out and
its new ones come in.

The pool and the listed slots depend on the shards and the spare pool only
(`pool_congr`, `listed_congr`), not on the link words. The rest applies this
to the moves of the table: pushing a slot on a free list or the spare pool
(`release`), linking a slot at the front of a list and unlinking it from
whichever list holds it (`unlinkSlot`). Each either adds one slot to the
pool or takes one out.
-/
namespace ShardCache

theorem flatMap_modify_perm {α : Type} (g : α → List Nat) (f : α → α) {l : List α} {s : Nat}
    (hs : s < l.length) : ((l.modify s f).flatMap g ++ g l[s]).Perm (l.flatMap g ++ g (f l[s])) := by
  have hl : l = l.take s ++ l[s] :: l.drop (s + 1) := by
    rw [← List.drop_eq_getElem_cons hs, List.take_append_drop]
  have hfl : l.flatMap g = (l.take s).flatMap g ++ (g l[s] ++ (l.drop (s + 1)).flatMap g) := by
    calc l.flatMap g = (l.take s ++ l[s] :: l.drop (s + 1)).flatMap g := by rw [← hl]
      _ = _ := by simp only [List.flatMap_append, List.flatMap_cons]
  rw [List.modify_eq_take_cons_drop hs, hfl]
  simp only [List.flatMap_append, List.flatMap_cons]
  rw [List.perm_iff_count]
  intro a
  simp only [List.count_append]
  omega

/-- Cancelling what both sides of a permutation share, with one slot more on
one side. -/
theorem perm_cons_of_append {X Y R R' : List Nat} {a : Nat} (h : (X ++ R).Perm (Y ++ R'))
    (hR : R'.Perm (a :: R)) : X.Perm (a :: Y) := by
  rw [List.perm_iff_count] at h hR ⊢
  intro b
  have h1 := h b
  have h2 := hR b
  simp only [List.count_append, List.count_cons] at h1 h2 ⊢
  omega

theorem perm_of_append {X Y R R' : List Nat} (h : (X ++ R).Perm (Y ++ R')) (hR : R'.Perm R) :
    X.Perm Y := by
  rw [List.perm_iff_count] at h hR ⊢
  intro b
  have h1 := h b
  have h2 := hR b
  simp only [List.count_append] at h1 h2
  omega

namespace Table

variable {κ ν : Type}

/-- The slots on the recency lists, shard by shard. -/
def listed (t : Table κ ν) : List Nat := t.shards.toList.flatMap (·.recent)

/-- Every slot on a list: the recency lists and free stacks, shard by shard,
then the spare pool. -/
def pool (t : Table κ ν) : List Nat :=
  t.shards.toList.flatMap (fun sh => sh.recent ++ sh.free) ++ t.spare

theorem pool_congr {t t' : Table κ ν} (hs : t'.shards = t.shards) (hsp : t'.spare = t.spare) :
    t'.pool = t.pool := by
  rw [pool, pool, hs, hsp]

theorem listed_congr {t t' : Table κ ν} (hs : t'.shards = t.shards) : t'.listed = t.listed := by
  rw [listed, listed, hs]

@[simp] theorem pool_record (t : Table κ ν) (e : Event) : (t.record e).pool = t.pool := rfl

@[simp] theorem listed_record (t : Table κ ν) (e : Event) : (t.record e).listed = t.listed := rfl

theorem getElem?_shards_modifyShard (t : Table κ ν) (s j : Nat) (f : Shard → Shard) :
    (t.modifyShard s f).shards[j]? = if s = j then t.shards[j]?.map f else t.shards[j]? := by
  simp [Array.getElem?_modify]

theorem toList_getElem {t : Table κ ν} {s : Nat} {sh : Shard} (hs : t.shards[s]? = some sh) :
    ∃ h : s < t.shards.toList.length, t.shards.toList[s] = sh := by
  rw [← Array.getElem?_toList] at hs
  exact List.getElem?_eq_some_iff.1 hs

/-- Changing one shard takes its old slots out of the pool and puts its new
ones in. -/
theorem pool_modifyShard {t : Table κ ν} {s : Nat} {sh : Shard} (f : Shard → Shard)
    (hs : t.shards[s]? = some sh) :
    ((t.modifyShard s f).pool ++ (sh.recent ++ sh.free)).Perm
      (t.pool ++ ((f sh).recent ++ (f sh).free)) := by
  obtain ⟨hlt, hget⟩ := toList_getElem hs
  have h := flatMap_modify_perm (fun sh => sh.recent ++ sh.free) f hlt
  rw [hget] at h
  unfold pool
  rw [shards_modifyShard, Array.toList_modify, spare_modifyShard]
  rw [List.perm_iff_count] at h ⊢
  intro b
  have := h b
  simp only [List.count_append] at this ⊢
  omega

theorem listed_modifyShard {t : Table κ ν} {s : Nat} {sh : Shard} (f : Shard → Shard)
    (hs : t.shards[s]? = some sh) :
    ((t.modifyShard s f).listed ++ sh.recent).Perm (t.listed ++ (f sh).recent) := by
  obtain ⟨hlt, hget⟩ := toList_getElem hs
  have h := flatMap_modify_perm (·.recent) f hlt
  rw [hget] at h
  unfold listed
  rw [shards_modifyShard, Array.toList_modify]
  exact h

theorem pool_modifyShard_add {t : Table κ ν} {s slot : Nat} {sh : Shard} {f : Shard → Shard}
    (hs : t.shards[s]? = some sh)
    (hf : ((f sh).recent ++ (f sh).free).Perm (slot :: (sh.recent ++ sh.free))) :
    (t.modifyShard s f).pool.Perm (slot :: t.pool) :=
  perm_cons_of_append (pool_modifyShard f hs) hf

theorem pool_modifyShard_take {t : Table κ ν} {s slot : Nat} {sh : Shard} {f : Shard → Shard}
    (hs : t.shards[s]? = some sh)
    (hf : (sh.recent ++ sh.free).Perm (slot :: ((f sh).recent ++ (f sh).free))) :
    t.pool.Perm (slot :: (t.modifyShard s f).pool) :=
  perm_cons_of_append (pool_modifyShard f hs).symm hf

theorem listed_modifyShard_add {t : Table κ ν} {s slot : Nat} {sh : Shard} {f : Shard → Shard}
    (hs : t.shards[s]? = some sh) (hf : (f sh).recent.Perm (slot :: sh.recent)) :
    (t.modifyShard s f).listed.Perm (slot :: t.listed) :=
  perm_cons_of_append (listed_modifyShard f hs) hf

theorem listed_modifyShard_take {t : Table κ ν} {s slot : Nat} {sh : Shard} {f : Shard → Shard}
    (hs : t.shards[s]? = some sh) (hf : sh.recent.Perm (slot :: (f sh).recent)) :
    t.listed.Perm (slot :: (t.modifyShard s f).listed) :=
  perm_cons_of_append (listed_modifyShard f hs).symm hf

theorem listed_modifyShard_of_recent {t : Table κ ν} {s : Nat} {sh : Shard} {f : Shard → Shard}
    (hs : t.shards[s]? = some sh) (hf : (f sh).recent = sh.recent) :
    (t.modifyShard s f).listed.Perm t.listed :=
  perm_of_append (listed_modifyShard f hs) (by rw [hf])

/-! ## Releasing -/

/-- What a release does to the shards: the slot goes on shard `s`'s free list, counted. -/
theorem shards_release_push {t : Table κ ν} {s : Nat} (slot : Nat)
    (hroom : (t.shards[s]?.map (·.hasRoom)).getD false = true) :
    (t.release s slot).shards =
      t.shards.modify s fun sh => { sh.pushFree slot with freeLen := sh.freeLen + 1 } := by
  rw [release, if_pos hroom, shards_modifyShard, shards_pushFree, Array.modify_modify_of_eq]
  rfl

theorem pool_release {t : Table κ ν} {s slot : Nat} (hs : s < t.shards.size) :
    (t.release s slot).pool.Perm (slot :: t.pool) := by
  obtain ⟨sh, hsh⟩ : ∃ sh, t.shards[s]? = some sh := ⟨t.shards[s], Array.getElem?_eq_getElem hs⟩
  by_cases hroom : (t.shards[s]?.map (·.hasRoom)).getD false = true
  · have hp : (t.modifyShard s fun sh => { sh.pushFree slot with freeLen := sh.freeLen + 1 }).pool.Perm
        (slot :: t.pool) := pool_modifyShard_add hsh (by simp [Shard.pushFree, List.perm_middle])
    have hspare : (t.release s slot).spare = t.spare := by
      rw [release, if_pos hroom, spare_modifyShard, pushFree]
      split <;> rfl
    rwa [pool_congr (t := t.modifyShard s fun sh => { sh.pushFree slot with freeLen := sh.freeLen + 1 })
      (shards_release_push slot hroom) hspare]
  · rw [release, if_neg hroom]
    exact List.perm_middle

theorem listed_release {t : Table κ ν} {s slot : Nat} (hs : s < t.shards.size) :
    (t.release s slot).listed.Perm t.listed := by
  obtain ⟨sh, hsh⟩ : ∃ sh, t.shards[s]? = some sh := ⟨t.shards[s], Array.getElem?_eq_getElem hs⟩
  by_cases hroom : (t.shards[s]?.map (·.hasRoom)).getD false = true
  · rw [listed_congr (t := t.modifyShard s fun sh => { sh.pushFree slot with freeLen := sh.freeLen + 1 })
      (shards_release_push slot hroom)]
    exact listed_modifyShard_of_recent (t := t) hsh rfl
  · rw [release, if_neg hroom]
    exact List.Perm.refl _

theorem perm_dropLast {l : List Nat} {a : Nat} (h : l.getLast? = some a) :
    l.Perm (a :: l.dropLast) := by
  obtain ⟨ys, rfl⟩ := List.getLast?_eq_some_iff.1 h
  simp [List.perm_append_singleton a ys]

/-! ## Linking and unlinking -/

theorem pool_link {t : Table κ ν} {s slot : Nat} (hs : s < t.shards.size) :
    (t.modifyShard s (·.link slot)).pool.Perm (slot :: t.pool) := by
  obtain ⟨sh, hsh⟩ : ∃ sh, t.shards[s]? = some sh := ⟨t.shards[s], Array.getElem?_eq_getElem hs⟩
  exact pool_modifyShard_add hsh (by simp)

theorem listed_link {t : Table κ ν} {s slot : Nat} (hs : s < t.shards.size) :
    (t.modifyShard s (·.link slot)).listed.Perm (slot :: t.listed) := by
  obtain ⟨sh, hsh⟩ : ∃ sh, t.shards[s]? = some sh := ⟨t.shards[s], Array.getElem?_eq_getElem hs⟩
  exact listed_modifyShard_add hsh (by simp)

theorem mem_listed {t : Table κ ν} {slot : Nat} :
    slot ∈ t.listed ↔ ∃ (r : Nat) (sh : Shard), t.shards[r]? = some sh ∧ slot ∈ sh.recent := by
  unfold listed
  rw [List.mem_flatMap]
  constructor
  · rintro ⟨sh, hsh, hslot⟩
    obtain ⟨r, hr⟩ := Array.mem_iff_getElem?.1 (Array.mem_toList_iff.1 hsh)
    exact ⟨r, sh, hr, hslot⟩
  · rintro ⟨r, sh, hr, hslot⟩
    exact ⟨sh, Array.mem_toList_iff.2 (Array.mem_iff_getElem?.2 ⟨r, hr⟩), hslot⟩

theorem mem_pool_of_mem_listed {t : Table κ ν} {slot : Nat} (h : slot ∈ t.listed) : slot ∈ t.pool := by
  obtain ⟨r, sh, hr, hslot⟩ := mem_listed.1 h
  unfold pool
  refine List.mem_append_left _ (List.mem_flatMap.2 ⟨sh, ?_, List.mem_append_left _ hslot⟩)
  exact Array.mem_toList_iff.2 (Array.mem_iff_getElem?.2 ⟨r, hr⟩)

/-- With no slot twice in the pool, a slot is on the lists of one shard at
most. -/
theorem shard_unique {t : Table κ ν} (hnd : t.pool.Nodup) {r r' slot : Nat} {sh sh' : Shard}
    (hr : t.shards[r]? = some sh) (hr' : t.shards[r']? = some sh')
    (hslot : slot ∈ sh.recent ++ sh.free) (hslot' : slot ∈ sh'.recent ++ sh'.free) : r = r' := by
  have hflat := (List.nodup_append.1 hnd).1
  have hpw := (List.nodup_flatMap.1 hflat).2
  rw [List.pairwise_iff_getElem] at hpw
  obtain ⟨hlt, hget⟩ := toList_getElem hr
  obtain ⟨hlt', hget'⟩ := toList_getElem hr'
  rcases Nat.lt_trichotomy r r' with h | h | h
  · have := hpw r r' hlt hlt' h
    rw [hget, hget'] at this
    exact absurd hslot' (List.disjoint_left.1 this hslot)
  · exact h
  · have := hpw r' r hlt' hlt h
    rw [hget, hget'] at this
    exact absurd hslot (List.disjoint_left.1 this hslot')

theorem shards_unlinkSlot_eq_modify {t : Table κ ν} {slot r : Nat}
    (hother : ∀ r' sh', r' ≠ r → t.shards[r']? = some sh' → slot ∉ sh'.recent) :
    (t.unlinkSlot slot).shards = t.shards.modify r (·.unlink slot) := by
  rw [shards_unlinkSlot]
  apply Array.ext_getElem?
  intro j
  rw [Array.getElem?_map, Array.getElem?_modify]
  by_cases hj : r = j
  · simp [hj]
  · simp only [hj, if_false]
    cases hsh : t.shards[j]? with
    | none => rfl
    | some sh' =>
      have := hother j sh' (Ne.symm hj) hsh
      simp [Shard.unlink, List.erase_of_not_mem this]

/-- Unlinking a listed slot takes it out of the pool and off the lists. -/
theorem pool_unlinkSlot {t : Table κ ν} (hnd : t.pool.Nodup) {slot : Nat} (h : slot ∈ t.listed) :
    t.pool.Perm (slot :: (t.unlinkSlot slot).pool) ∧
      t.listed.Perm (slot :: (t.unlinkSlot slot).listed) := by
  obtain ⟨r, sh, hr, hslot⟩ := mem_listed.1 h
  have hother : ∀ r' sh', r' ≠ r → t.shards[r']? = some sh' → slot ∉ sh'.recent :=
    fun r' sh' hne hr' hs' => hne (shard_unique hnd hr' hr (List.mem_append_left _ hs')
      (List.mem_append_left _ hslot))
  have hsh := shards_unlinkSlot_eq_modify hother
  have hpool : (t.unlinkSlot slot).pool = (t.modifyShard r (·.unlink slot)).pool :=
    pool_congr hsh (by simp)
  have hlisted : (t.unlinkSlot slot).listed = (t.modifyShard r (·.unlink slot)).listed :=
    listed_congr hsh
  rw [hpool, hlisted]
  have herase := List.perm_cons_erase hslot
  exact ⟨pool_modifyShard_take hr (by simpa using herase.append_right sh.free),
    listed_modifyShard_take hr (by simpa using herase)⟩

end Table

end ShardCache
