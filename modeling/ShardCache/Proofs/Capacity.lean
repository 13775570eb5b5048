import Mathlib
import ShardCache.Proofs.Reachable
/-!
# A shard that runs dry always gets a slot back

Each shard keeps at most its quota of free slots, the quotas add up to the
capacity and each is at least one. So when a shard's free list is empty,
the free lists hold fewer slots than the pool, and some slot is in the
spare pool or on a recency list. A reclaim for the shard therefore finds a
slot on its first pass (the spare pool, the tail of the shard's own list, or
the tail of another shard's) and leaves it alone on the shard's free list.
An insert of an absent key takes a free slot at once, or after that one
reclaim: two attempts of its loop always suffice, further ones change
nothing, and the key is then present with its value.

Results:
* `Config.sum_quota`, `Config.quota_pos`: the quotas add up to the capacity,
  and each is at least one.
* `Invariant.spare_or_listed`: a shard with no free slot leaves a slot in the
  spare pool or on a list.
* `Invariant.reclaim_free`: a reclaim for such a shard leaves one slot on its
  free list.
* `Invariant.upsertWith_absent`: an insert of an absent key succeeds within
  two attempts.
* `capacity_reachable`: all of it, in every reachable table.
-/
namespace ShardCache

namespace Config

/-- The quotas of the shards add up to the capacity. -/
theorem sum_quota {c : Config} (h0 : 0 < c.shards) :
    ((List.range c.shards).map c.quota).sum = c.capacity := by
  have h := congrArg List.length (flatMap_partition h0)
  simpa [List.length_flatMap] using h

/-- Every shard of a valid geometry owns at least one slot. -/
theorem quota_pos {c : Config} (hv : c.validate = .ok ()) {s : Nat} (hs : s < c.shards) :
    0 < c.quota s := by
  obtain ⟨-, h0, -, hle, -⟩ := validate_eq_ok.1 hv
  have hshare : 0 < c.share := Nat.div_pos hle h0
  unfold quota partEnd partStart
  split
  · -- the last shard ends at the capacity, beyond the shares of the others
    have hlt : s * c.share < c.capacity :=
      calc s * c.share < c.shards * c.share := Nat.mul_lt_mul_of_pos_right hs hshare
        _ ≤ c.capacity := by
          unfold share
          rw [Nat.mul_comm]
          exact Nat.div_mul_le_self c.capacity c.shards
    omega
  · rw [Nat.succ_mul]
    omega

end Config

/-- Every other shard is some number of steps after `s`, cyclically, short of
a full turn. -/
theorem exists_cyclic_offset {n s r : Nat} (hs : s < n) (hr : r < n) (hne : r ≠ s) :
    ∃ o, 1 ≤ o ∧ o < n ∧ (s + o) % n = r := by
  by_cases h : s < r
  · refine ⟨r - s, by omega, by omega, ?_⟩
    rw [Nat.add_sub_cancel' h.le, Nat.mod_eq_of_lt hr]
  · refine ⟨r + n - s, by omega, by omega, ?_⟩
    rw [show s + (r + n - s) = r + n by omega, Nat.add_mod_right, Nat.mod_eq_of_lt hr]

namespace Table

variable {κ ν : Type}

/-! ## Dry shards -/

/-- Shard `s` has run dry: no free slot, and its count of free slots below its quota. -/
def Dry (t : Table κ ν) (s : Nat) : Prop :=
  ∃ sh : Shard, t.shards[s]? = some sh ∧ sh.free = [] ∧ sh.freeLen < sh.quota

/-- A tail taken is the victim cut out of the links and dropped from the end of the
shard's list. -/
theorem takeTail_eq_cut {t t' : Table κ ν} {r v : Nat} (h : t.takeTail r = some (v, t')) :
    t' = (t.cutLinks v.toUInt32).modifyShard r (·.dropTail) := by
  unfold takeTail at h
  split at h
  · cases h
  dsimp only at h
  split at h
  · cases h
  simp only [Option.some.injEq, Prod.mk.injEq] at h
  obtain ⟨rfl, rfl⟩ := h
  simp

namespace Dry

variable {t t' : Table κ ν} {s : Nat}

theorem of_shards (h : t.Dry s) (hshards : t'.shards = t.shards) : t'.Dry s := by
  unfold Dry
  rw [hshards]
  exact h

/-- Taking the tail of any list leaves every free list as it was. -/
theorem takeTail (h : t.Dry s) {r v : Nat} (ht : t.takeTail r = some (v, t')) : t'.Dry s := by
  obtain ⟨sh, hsh, hfree, hq⟩ := h
  unfold Dry
  rw [takeTail_eq_cut ht, shards_modifyShard, shards_cutLinks, Array.getElem?_modify]
  by_cases hrs : r = s
  · subst hrs
    exact ⟨sh.dropTail, by rw [if_pos rfl, hsh]; rfl, hfree, hq⟩
  · exact ⟨sh, by rw [if_neg hrs, hsh], hfree, hq⟩

/-- A slot released to a dry shard is alone on its free list. -/
theorem release (h : t.Dry s) (slot : Nat) :
    ∃ sh : Shard, (t.release s slot).shards[s]? = some sh ∧ sh.free = [slot] := by
  obtain ⟨sh, hsh, hfree, hq⟩ := h
  have hroom : (t.shards[s]?.map (·.hasRoom)).getD false = true := by
    simp [hsh, Shard.hasRoom, hq]
  refine ⟨{ sh.pushFree slot with freeLen := sh.freeLen + 1 }, ?_, by simp [hfree]⟩
  rw [shards_release_push slot hroom, Array.getElem?_modify, if_pos rfl, hsh]
  rfl

end Dry

/-- An eviction changes no shard before it releases the victim. -/
theorem evict_eq_release (t : Table κ ν) (s v : Nat) :
    ∃ u : Table κ ν, u.shards = t.shards ∧ t.evict s v = u.release s v := by
  unfold evict
  split
  · exact ⟨t, rfl, rfl⟩
  · dsimp only
    split
    · refine ⟨_, ?_, rfl⟩
      rfl
    · exact ⟨t, rfl, rfl⟩

/-- A victim evicted for a dry shard is alone on its free list. -/
theorem Dry.evict {t : Table κ ν} {s : Nat} (h : t.Dry s) (v : Nat) :
    ∃ sh : Shard, (t.evict s v).shards[s]? = some sh ∧ sh.free = [v] := by
  obtain ⟨u, hu, heq⟩ := evict_eq_release t s v
  rw [heq]
  exact (h.of_shards hu).release v

/-- A search for a foreign tail that finds none saw every other list empty. -/
theorem takeTail_eq_none_of_foreign {t : Table κ ν} {s r : Nat} (h : t.takeForeignTail s = none)
    (hs : s < t.config.shards) (hr : r < t.config.shards) (hne : r ≠ s) : t.takeTail r = none := by
  obtain ⟨o, h1, h2, rfl⟩ := exists_cyclic_offset hs hr hne
  exact List.findSome?_eq_none_iff.1 h o (List.mem_range'_1.2 ⟨h1, by omega⟩)

theorem entry?_publish {t : Table κ ν} {s y pos : Nat} {e : Entry κ ν} (hy : y < t.slots.size) :
    Table.entry? (t.publish s y pos e) y = some e := by
  show Table.entry? (t.writeSlot y (some e)) y = some e
  rw [entry?_writeSlot _ hy, if_pos rfl]

/-! ## Counting the pool -/

/-- The pool counted shard by shard. -/
theorem length_pool (t : Table κ ν) :
    t.pool.length =
      (t.shards.toList.map fun sh => sh.recent.length + sh.free.length).sum + t.spare.length := by
  simp [pool, List.length_flatMap]

variable [CacheKey κ] {t : Table κ ν}

/-- The quotas the shards keep add up to the capacity. -/
theorem Invariant.sum_quota (hi : t.Invariant) :
    (t.shards.toList.map (·.quota)).sum = t.config.capacity := by
  have hmap : t.shards.toList.map (·.quota) = (List.range t.config.shards).map t.config.quota := by
    apply List.ext_getElem (by simp [hi.shards_size])
    intro r h₁ h₂
    simp only [List.getElem_map, List.getElem_range, Array.getElem_toList]
    exact hi.quota r _ (Array.getElem?_eq_getElem _)
  rw [hmap, Config.sum_quota (Config.validate_eq_ok.1 hi.valid).2.1]

theorem Invariant.shard_lt (hi : t.Invariant) {r : Nat} {sh : Shard} (hr : t.shards[r]? = some sh) :
    r < t.config.shards :=
  hi.shards_size ▸ (Array.getElem?_eq_some_iff.1 hr).1

/-- A shard with no free slot leaves a slot in the spare pool or on a list:
the free lists alone hold fewer slots than the quotas, and so than the pool. -/
theorem Invariant.spare_or_listed (hi : t.Invariant) {s : Nat} {sh : Shard} (hsh : t.shards[s]? = some sh)
    (hfree : sh.free = []) :
    t.spare ≠ [] ∨ ∃ (r : Nat) (sh' : Shard), t.shards[r]? = some sh' ∧ sh'.recent ≠ [] := by
  by_contra hnone
  simp only [not_or, not_exists, not_and, not_not, ne_eq] at hnone
  obtain ⟨hspare, hrecent⟩ := hnone
  have hmem : ∀ sh' ∈ t.shards.toList, ∃ r, t.shards[r]? = some sh' := fun sh' h' => by
    obtain ⟨r, hr⟩ := List.mem_iff_getElem?.1 h'
    exact ⟨r, by rwa [Array.getElem?_toList] at hr⟩
  -- with no spare and no listed slot, the pool is the free lists
  have hpool : t.config.capacity = (t.shards.toList.map fun sh => sh.free.length).sum := by
    have hlen := hi.pool.length_eq
    rw [List.length_range, length_pool, hspare, List.length_nil, Nat.add_zero] at hlen
    rw [← hlen]
    congr 1
    apply List.map_congr_left
    intro sh' h'
    obtain ⟨r, hr⟩ := hmem sh' h'
    rw [hrecent r sh' hr, List.length_nil, Nat.zero_add]
  -- and the free lists hold fewer than the quotas, shard `s`'s holding none
  have hlt : (t.shards.toList.map fun sh => sh.free.length).sum < (t.shards.toList.map (·.quota)).sum := by
    apply List.sum_lt_sum
    · intro sh' h'
      obtain ⟨r, hr⟩ := hmem sh' h'
      exact hi.length_free_le hr
    · refine ⟨sh, Array.mem_toList_iff.2 (Array.mem_of_getElem? hsh), ?_⟩
      rw [hfree, List.length_nil, hi.quota s sh hsh]
      exact Config.quota_pos hi.valid (hi.shard_lt hsh)
  rw [hi.sum_quota] at hlt
  omega

/-! ## Reclaim -/

/-- A reclaim for a shard with no free slot finds a slot on its first pass
and leaves it alone on the shard's free list. -/
theorem Invariant.reclaim_free (hi : t.Invariant) {s : Nat} (hs : s < t.config.shards) {sh : Shard}
    (hsh : t.shards[s]? = some sh) (hfree : sh.free = []) :
    ∃ (slot : Nat) (sh' : Shard), (t.reclaim s).shards[s]? = some sh' ∧ sh'.free = [slot] := by
  -- the count of free slots is the length of the empty free list
  have hdry : t.Dry s := ⟨sh, hsh, hfree, by
    rw [hi.linked.freeLen s sh hsh, hfree, hi.quota s sh hsh]
    exact Config.quota_pos hi.valid hs⟩
  unfold reclaim
  cases hspare : t.spare with
  | cons slot rest =>
    have hdry' : Dry { t with spare := rest } s := hdry.of_shards rfl
    exact ⟨slot, hdry'.release slot⟩
  | nil =>
    cases hown : t.takeTail s with
    | some p =>
      obtain ⟨victim, t'⟩ := p
      exact ⟨victim, (hdry.takeTail hown).evict victim⟩
    | none =>
      cases hforeign : t.takeForeignTail s with
      | some p =>
        obtain ⟨victim, t'⟩ := p
        obtain ⟨r, -, htail⟩ := List.exists_of_findSome?_eq_some hforeign
        exact ⟨victim, ((hdry.takeTail htail).of_shards (shards_record t' _)).evict victim⟩
      | none =>
        -- nothing to take anywhere: impossible while shard `s` has run dry
        exfalso
        rcases hi.spare_or_listed hsh hfree with h | ⟨r, sh', hr, hne⟩
        · exact h hspare
        · by_cases hrs : r = s
          · subst hrs
            exact hi.linked.takeTail_ne_none hi.placed hr hne hown
          · exact hi.linked.takeTail_ne_none hi.placed hr hne
              (takeTail_eq_none_of_foreign hforeign hs (hi.shard_lt hr) hrs)

/-! ## Inserting an absent key -/

variable [DecidableEq κ] {s : Nat} {k : κ}

/-- A lookup misses exactly the keys that no slot holds. -/
theorem Invariant.find?_eq_none_iff (hi : t.Invariant) :
    t.find? k = none ↔ ∀ slot e, t.entry? slot = some e → e.key ≠ k := by
  refine ⟨hi.find?_eq_none, fun h => ?_⟩
  cases hf : t.find? k with
  | none => rfl
  | some p =>
    obtain ⟨start, depth, slot⟩ := p
    obtain ⟨-, -, e, he, -, hk⟩ := find?_eq_some hf
    exact absurd hk (h slot e he)

/-- A lookup that misses stopped at a free bucket. -/
theorem Invariant.probeKey_of_find?_eq_none (hi : t.Invariant) (hk : t.find? k = none) :
    ∃ start d, t.probeKey k = (start, .vacant d) := by
  match hp : t.probeKey k with
  | (start, .hit depth slot) => simp [find?, hp] at hk
  | (start, .vacant d) => exact ⟨start, d, rfl⟩
  | (start, .full) => exact absurd (congrArg Prod.snd hp) (hi.probeKey_ne_full k)

theorem upsertWith_vacant_free {v : ν} {overwrite : Bool} {start d y : Nat} {t' : Table κ ν}
    (hpk : t.probeKey k = (start, .vacant d)) (htake : t.takeFree s = some (y, t')) (n : Nat) :
    upsertWith s k v overwrite (n + 1) t =
      (true, t'.publish s y (t.index.position start d) ⟨k, v, t.hashOf k⟩) := by
  simp only [upsertWith, hpk, htake]

theorem upsertWith_vacant_dry {v : ν} {overwrite : Bool} {start d : Nat}
    (hpk : t.probeKey k = (start, .vacant d)) (htake : t.takeFree s = none) (n : Nat) :
    upsertWith s k v overwrite (n + 1) t = upsertWith s k v overwrite n (t.reclaim s) := by
  simp only [upsertWith, hpk, htake]

/-- An insert of an absent key with a free slot at hand succeeds at the
first attempt, whatever the attempts left, and leaves the key with its value. -/
theorem Invariant.upsertWith_free (hi : t.Invariant) (hk : t.find? k = none) (v : ν) (overwrite : Bool)
    {y : Nat} {t' : Table κ ν} (htake : t.takeFree s = some (y, t')) :
    ∃ t₂ : Table κ ν, (∀ n, upsertWith s k v overwrite (n + 1) t = (true, t₂)) ∧
      ∃ slot, t₂.entry? slot = some ⟨k, v, t.hashOf k⟩ := by
  obtain ⟨start, d, hpk⟩ := hi.probeKey_of_find?_eq_none hk
  exact ⟨_, upsertWith_vacant_free hpk htake, y, entry?_publish (hi.takeFree_fresh htake).2⟩

/-- A reclaim only takes keys away: a key absent before stays absent. -/
theorem Invariant.find?_reclaim {order : List Nat} (hi : t.Invariant) (ha : t.index.Arranged t.homeOf order)
    (hs : s < t.config.shards) (hk : t.find? k = none) : (t.reclaim s).find? k = none := by
  have h₁ := hi.shrink ha (reclaim_cases hi ha hs)
  rw [h₁.1.1.find?_eq_none_iff]
  intro slot e he hek
  have hkey : (t.reclaim s).keyOf slot = some k := keyOf_eq_some.2 ⟨e, he, hek⟩
  rcases h₁.2.2 slot with h | h
  · rw [h] at hkey
    obtain ⟨e', he', hek'⟩ := keyOf_eq_some.1 hkey
    exact hi.find?_eq_none hk slot e' he' hek'
  · rw [h] at hkey
    cases hkey

/-- An insert of an absent key succeeds within two attempts: at once if the
shard has a free slot, else after one reclaim, which always leaves it one.
Further attempts change nothing. -/
theorem Invariant.upsertWith_absent {order : List Nat} (hi : t.Invariant) (ha : t.index.Arranged t.homeOf order)
    (hs : s < t.config.shards) (hk : t.find? k = none) (v : ν) (overwrite : Bool) :
    ∃ t₂ : Table κ ν, (∀ n, upsertWith s k v overwrite (n + 2) t = (true, t₂)) ∧
      ∃ slot hash, t₂.entry? slot = some ⟨k, v, hash⟩ := by
  obtain ⟨sh, hsh⟩ := hi.placed.exists_shard hs
  cases htake : t.takeFree s with
  | some p =>
    obtain ⟨y, t'⟩ := p
    obtain ⟨t₂, hrun, slot, he⟩ := hi.upsertWith_free hk v overwrite htake
    exact ⟨t₂, fun n => hrun (n + 1), slot, _, he⟩
  | none =>
    obtain ⟨start, d, hpk⟩ := hi.probeKey_of_find?_eq_none hk
    have hi₁ : (t.reclaim s).Invariant := (hi.shrink ha (reclaim_cases hi ha hs)).1.1
    have hk₁ := hi.find?_reclaim ha hs hk
    -- the reclaim leaves shard `s` one free slot, so the second attempt pops it
    obtain ⟨slot, sh', hsh', hfree'⟩ :=
      hi.reclaim_free hs hsh ((hi.linked.takeFree_eq_none_iff hi.placed hsh).1 htake)
    obtain ⟨⟨y, t'⟩, htake'⟩ : ∃ p, (t.reclaim s).takeFree s = some p :=
      Option.ne_none_iff_exists'.1 fun h =>
        List.cons_ne_nil slot [] (hfree' ▸ (hi₁.linked.takeFree_eq_none_iff hi₁.placed hsh').1 h)
    obtain ⟨t₂, hrun, y, he⟩ := hi₁.upsertWith_free hk₁ v overwrite htake'
    exact ⟨t₂, fun n => (upsertWith_vacant_dry hpk htake (n + 1)).trans (hrun n), y, _, he⟩

/-- A lookup of the key of an entry finds the entry's value. -/
theorem Invariant.get_of_entry (hi : t.Invariant) {x : Nat} {e : Entry κ ν} (he : t.entry? x = some e)
    (s' : Nat) : (t.get s' e.key).1 = some e.value := by
  obtain ⟨p, -, hfind⟩ := hi.find?_of_entry he
  simp [get, hfind, he]

/-- In every reachable table, a shard whose free list is empty leaves a slot
in the spare pool or on some list, and a reclaim for it leaves exactly one
slot on its free list. An insert of an absent key, overwriting or not,
succeeds within two attempts of its loop, further attempts change nothing,
and a lookup through any shard then finds the key with its value. -/
theorem capacity_reachable [DecidableEq ν] {order : List Nat} (h : t.Reach order) (hs : s < t.config.shards) :
    (∀ sh : Shard, t.shards[s]? = some sh → sh.free = [] →
      (t.spare ≠ [] ∨ ∃ (r : Nat) (sh' : Shard), t.shards[r]? = some sh' ∧ sh'.recent ≠ []) ∧
        ∃ (slot : Nat) (sh' : Shard), (t.reclaim s).shards[s]? = some sh' ∧ sh'.free = [slot]) ∧
    ∀ (k : κ) (v : ν) (overwrite : Bool), t.find? k = none →
      (t.upsert s k v overwrite).1 = true ∧
        (∀ n, upsertWith s k v overwrite (n + 2) t = t.upsert s k v overwrite) ∧
        ∀ s', ((t.upsert s k v overwrite).2.get s' k).1 = some v := by
  obtain ⟨hi, ha⟩ := h.invariant_arranged
  refine ⟨fun sh hsh hfree => ⟨hi.spare_or_listed hsh hfree, hi.reclaim_free hs hsh hfree⟩,
    fun k v overwrite hk => ?_⟩
  obtain ⟨t₂, hrun, slot, hash, he⟩ := hi.upsertWith_absent ha hs hk v overwrite
  have hup : t.upsert s k v overwrite = (true, t₂) := hrun 0
  -- the table after the insert keeps the invariant, so a lookup finds the entry
  have hkeep : Keeps t (t.upsert s k v overwrite).2 order := (Invariant.keeps_upsertWith 2 t order hi ha hs).1
  rw [hup] at hkeep
  refine ⟨by rw [hup], fun n => (hrun n).trans hup.symm, fun s' => ?_⟩
  rw [hup]
  exact hkeep.1.get_of_entry he s'

/-- After one insert into a fresh table of four slots and two shards, the
first shard can always be given a slot, and an absent key inserted. -/
theorem capacity_after_insert :
    let t₀ : Table UInt64 Nat := create ⟨4, 8, 2⟩ .identity
    let t := (t₀.perform (.insert 0 5 7)).2
    t.Reach (t₀.creationOrder t []) ∧ 0 < t.config.shards ∧
      (∀ sh : Shard, t.shards[0]? = some sh → sh.free = [] →
        (t.spare ≠ [] ∨ ∃ (r : Nat) (sh' : Shard), t.shards[r]? = some sh' ∧ sh'.recent ≠ []) ∧
          ∃ (slot : Nat) (sh' : Shard), (t.reclaim 0).shards[0]? = some sh' ∧ sh'.free = [slot]) ∧
      ∀ (k : UInt64) (v : Nat) (overwrite : Bool), t.find? k = none →
        (t.upsert 0 k v overwrite).1 = true ∧
          (∀ n, upsertWith 0 k v overwrite (n + 2) t = t.upsert 0 k v overwrite) ∧
          ∀ s', ((t.upsert 0 k v overwrite).2.get s' k).1 = some v := by
  intro t₀ t
  have hs : 0 < t.config.shards :=
    (Config.validate_eq_ok.1 reach_insert_fresh.invariant_arranged.1.valid).2.1
  exact ⟨reach_insert_fresh, hs, capacity_reachable reach_insert_fresh hs⟩

end Table

end ShardCache
