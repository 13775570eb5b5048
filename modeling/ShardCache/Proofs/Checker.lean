import Mathlib.Data.Option.Basic
import ShardCache.Table.Check
import ShardCache.Proofs.Invariant
/-!
# What the structural check finds

`Table.check` walks each shard's recency list from its head sentinel, reads its free list
as `snapshot_free` does, counts the spare pool, and then scans the buckets in position
order. This module follows those passes over a table whose arena forms its lists
(`Table.Linked`) and whose index keeps the invariant, save for buckets a forgotten guard
holds.

The passes over the lists read what `Linked` states: the walk of a list meets the slots
of its `recent` in order and stops at the tail sentinel, whose pair leads back to the last
of them; the free list read from its head register is the shard's `free`; the spare slots
are detached. Counted together they meet every data slot once, so the membership pass
finds nothing. `Tally.of` is what the passes have met, up to order.

The bucket pass tests each bucket against the slots of the buckets before it. A bucket
that reads as in a table keeping the invariant passes, even when buckets on its entry's
probe path are held: a held bucket is not free and holds no entry. So the pass stops at the
first held bucket.

Results:
* `Linked.check_eq`: the check of a table whose arena forms its lists is its bucket pass.
* `Invariant.check`: every table that keeps the invariant passes the check.
* `Invariant.check_heldOver`: with buckets held, the check reports the lowest of them.
-/
namespace ShardCache

/-- A list of slots that fit a word survives the cast to words and back. -/
theorem map_toNat_toUInt32 {l : List Nat} (h : ∀ x ∈ l, x ≤ slotIdLimit) :
    (l.map Nat.toUInt32).map UInt32.toNat = l := by
  induction l with
  | nil => rfl
  | cons x l ih =>
    rw [List.map_cons, List.map_cons, Config.toNat_toUInt32_of_le (h x List.mem_cons_self),
      ih fun y hy => h y (List.mem_cons_of_mem _ hy)]

namespace Tally

/-- What the passes met, up to order: the slots of `lst` on recency lists and those of
`oth` elsewhere, for `n` data slots. -/
def of (n : Nat) (lst oth : List Nat) : Tally :=
  ⟨Array.ofFn fun x : Fin n => lst.count x.1 + oth.count x.1, Array.ofFn fun x : Fin n => decide (x.1 ∈ lst)⟩

theorem of_perm {n : Nat} {l l' o o' : List Nat} (hl : l.Perm l') (ho : o.Perm o') :
    of n l o = of n l' o' := by
  simp only [of, hl.count_eq, ho.count_eq, hl.mem_iff]

theorem empty_eq (n : Nat) : empty n = of n [] [] := by
  simp only [empty, of, List.count_nil, List.not_mem_nil, decide_false]
  congr 1 <;> exact Array.ext (by simp) (by simp)

/-- Meeting a slot off the lists counts it once more. -/
theorem count_of (n : Nat) (l o : List Nat) (x : Nat) : (of n l o).count x = of n l (x :: o) := by
  simp only [count, of, Tally.mk.injEq, and_true]
  apply Array.ext_getElem?
  intro y
  rw [Array.getElem?_modify, Array.getElem?_ofFn, Array.getElem?_ofFn]
  by_cases hy : y < n
  · by_cases hxy : x = y
    · subst hxy
      simp [hy, Nat.add_assoc]
    · simp [hy, hxy]
  · simp [hy]

/-- Meeting a slot on a list counts it once more and marks it as listed. -/
theorem countLinked_of (n : Nat) (l o : List Nat) (x : Nat) :
    (of n l o).countLinked x = of n (x :: l) o := by
  unfold countLinked
  rw [count_of]
  simp only [of, Tally.mk.injEq]
  refine ⟨?_, ?_⟩
  · congr 1
    funext y
    simp only [List.count_cons]
    omega
  · apply Array.ext_getElem?
    intro y
    rw [Array.getElem?_setIfInBounds, Array.getElem?_ofFn, Array.getElem?_ofFn, Array.size_ofFn]
    by_cases hxy : x = y
    · subst hxy
      by_cases hx : x < n <;> simp [hx]
    · by_cases hy : y < n <;> simp [hxy, Ne.symm hxy, hy]

theorem linked_of (n : Nat) (l o : List Nat) (x : Nat) :
    (of n l o).linked[x]?.getD false = decide (x < n ∧ x ∈ l) := by
  simp only [of, Array.getElem?_ofFn]
  split <;> simp_all

/-- The membership pass finds nothing once every data slot was met exactly once. -/
theorem membershipFailure_of {n : Nat} {l o : List Nat} (h : ∀ x < n, l.count x + o.count x = 1) :
    (of n l o).membershipFailure = none := by
  simp only [membershipFailure, of, Array.size_ofFn, Option.map_eq_none_iff, List.find?_eq_none,
    List.mem_range, Array.getElem?_ofFn]
  intro x hx
  simp [hx, h x hx]

end Tally

namespace Table

variable {κ ν : Type}

open Relink

/-! ## The passes over the lists -/

section Lists

variable {t : Table κ ν}

/-- The walk of a list whose words chain `prev` through `ys` to the tail sentinel meets the
slots of `ys` in order and stops at the last of them. -/
theorem walkList_chain {s : Nat} (htail : t.config.capacity ≤ (t.ends s).tail.toNat) :
    ∀ (ys : List UInt32) (prev : UInt32) (fuel steps : Nat) (l o : List Nat),
      (prev :: (ys ++ [(t.ends s).tail])).IsChain (Adjacent t.linkOf) →
      (∀ y ∈ ys, y.toNat < t.config.capacity) → ys.length < fuel →
      steps + ys.length ≤ t.config.capacity →
      t.walkList s fuel prev (t.linkOf prev).succ steps (Tally.of t.config.capacity l o) =
        .ok (ys.getLast?.getD prev, Tally.of t.config.capacity (ys.map UInt32.toNat ++ l) o)
  | _, _, 0, _, _, _, _, _, hfuel, _ => absurd hfuel (Nat.not_lt_zero _)
  | [], prev, fuel + 1, steps, l, o, hc, _, _, _ => by
    have hsucc := (List.isChain_pair.1 hc).1
    rw [walkList, hsucc, if_pos rfl]
    rfl
  | y :: ys, prev, fuel + 1, steps, l, o, hc, hlt, hfuel, hsteps => by
    rw [List.cons_append, List.isChain_cons_cons] at hc
    obtain ⟨⟨hsucc, hpred⟩, hrest⟩ := hc
    have hy := hlt y List.mem_cons_self
    have hyt : y ≠ (t.ends s).tail := fun h => by rw [h] at hy; omega
    simp only [List.length_cons] at hfuel hsteps
    -- the slot is a data slot that leads back to `prev`, and the walk is not too long
    rw [walkList, hsucc, if_neg hyt, if_neg (by omega)]
    simp only [hpred, ne_eq, not_true_eq_false, if_false, if_neg (show ¬ t.config.capacity < steps + 1 by omega),
      Tally.countLinked_of]
    rw [walkList_chain htail ys y fuel (steps + 1) (y.toNat :: l) o hrest
      (fun z hz => hlt z (List.mem_cons_of_mem _ hz)) (by omega) (by omega), List.getLast?_cons,
      Option.getD_some, Tally.of_perm List.perm_middle (List.Perm.refl o)]
    rfl

/-- Read from a chain's head word, the free list is the chain. -/
theorem snapshotFree_chain : ∀ {h : UInt32} {l : List Nat}, FreeChain t.linkOf h l →
    (∀ x ∈ l, x ≤ slotIdLimit) → ∀ fuel, l.length ≤ fuel → t.snapshotFree fuel h = l.map Nat.toUInt32
  | _, _, .nil, _, 0, _ => rfl
  | _, _, .nil, _, fuel + 1, _ => by
    rw [snapshotFree, if_neg (by decide)]
    rfl
  | _, _, .cons _ _, _, 0, hlen => absurd hlen (by simp)
  | _, x :: rest, .cons _ hr, hb, fuel + 1, hlen => by
    have hx := hb x List.mem_cons_self
    have hlt : x.toUInt32 < listEnd := by
      rw [UInt32.lt_iff_toNat_lt, Config.toNat_toUInt32_of_le hx]
      unfold slotIdLimit at hx
      exact Nat.lt_of_le_of_lt hx (by decide)
    rw [snapshotFree, if_pos hlt, snapshotFree_chain hr (fun z hz => hb z (List.mem_cons_of_mem _ hz)) fuel
      (by simpa using hlen), List.map_cons]

/-- Counting a free list of data slots that mark no predecessor counts each once. -/
theorem countFree_eq {s : Nat} (hcap : t.config.capacity ≤ slotIdLimit) :
    ∀ (xs l o : List Nat), (∀ x ∈ xs, x < t.config.capacity) →
      (∀ x ∈ xs, (t.linkOf x.toUInt32).pred = listEnd) →
      t.countFree s (Tally.of t.config.capacity l o) (xs.map Nat.toUInt32) =
        .ok (Tally.of t.config.capacity l (xs ++ o))
  | [], _, _, _, _ => rfl
  | x :: rest, l, o, hlt, hpred => by
    have hx := hlt x List.mem_cons_self
    rw [List.map_cons, countFree, Config.toNat_toUInt32_of_le (by omega),
      if_neg (by simp [hpred x List.mem_cons_self]; omega), Tally.count_of,
      countFree_eq hcap rest l (x :: o) (fun z hz => hlt z (List.mem_cons_of_mem _ hz))
        (fun z hz => hpred z (List.mem_cons_of_mem _ hz)),
      Tally.of_perm (List.Perm.refl l) List.perm_middle]
    rfl

/-- Counting detached data slots counts each once. -/
theorem countSpare_eq : ∀ (xs l o : List Nat), (∀ x ∈ xs, x < t.config.capacity) →
    (∀ x ∈ xs, t.linkOf x.toUInt32 = Link.detached) →
    t.countSpare (Tally.of t.config.capacity l o) xs = .ok (Tally.of t.config.capacity l (xs ++ o))
  | [], _, _, _, _ => rfl
  | x :: rest, l, o, hlt, hdet => by
    have hok : ¬(t.config.capacity ≤ x ∨ (t.linkOf x.toUInt32).isDetached = false) := by
      simp [hdet x List.mem_cons_self, Link.isDetached, Link.detached, hlt x List.mem_cons_self]
    rw [countSpare, if_neg hok, Tally.count_of,
      countSpare_eq rest l (x :: o) (fun z hz => hlt z (List.mem_cons_of_mem _ hz))
        (fun z hz => hdet z (List.mem_cons_of_mem _ hz)),
      Tally.of_perm (List.Perm.refl l) List.perm_middle]
    rfl

/-- A free list holds distinct data slots, so no more than there are. -/
theorem Placed.length_free_le (hp : t.Placed) {s : Nat} {sh : Shard} (hsh : t.shards[s]? = some sh) :
    sh.free.length ≤ t.config.capacity := by
  have hsub : sh.free.Sublist t.owned := by
    refine List.Sublist.trans ?_ (List.sublist_append_left _ _)
    rw [List.flatMap_def]
    exact List.sublist_flatten_of_mem (List.mem_map_of_mem (Array.mem_toList_iff.2 (Array.mem_of_getElem? hsh)))
  have hle := ((hp.owned_nodup.sublist hsub).subperm fun x hx =>
    List.mem_range.2 (hp.lt_of_owned (mem_owned_of_free hsh hx))).length_le
  rwa [List.length_range] at hle

variable (hl : t.Linked) (hp : t.Placed) (hq : t.FreeLe)
include hl hp hq

/-- The pass over one shard walks its list and reads its free list: it meets the slots of
its `recent` on the list and those of its `free` off it. -/
theorem Linked.checkShard_eq {s : Nat} {sh : Shard} (hsh : t.shards[s]? = some sh) (l o : List Nat) :
    t.checkShard s sh (Tally.of t.config.capacity l o) =
      .ok (Tally.of t.config.capacity (sh.recent ++ l) (sh.free ++ o)) := by
  obtain ⟨seqs, hf, hseq⟩ := hl.formed
  have hlim := hp.limit
  have he := ends_mem_lists hp.shards_size hsh
  have hs : s < t.config.shards := hp.shards_size ▸ (Array.getElem?_eq_some_iff.1 hsh).1
  obtain ⟨hhead, htailsucc, hchain⟩ := hf.linked _ he
  have hrec := hseq s sh hsh
  have hlt : ∀ x ∈ sh.recent, x < t.config.capacity := fun x hx =>
    hp.lt_of_listed (mem_listed.2 ⟨s, sh, hsh, hx⟩)
  have hflt : ∀ x ∈ sh.free, x < t.config.capacity := fun x hx => hp.lt_of_owned (mem_owned_of_free hsh hx)
  -- the list holds distinct data slots, so no more than there are
  have hnd : sh.recent.Nodup := by
    have := chain_nodup hf.nodup he
    rw [chain_eq, hrec, List.cons_append, List.nodup_cons] at this
    exact (List.nodup_append.1 this.2).1.of_map _
  have hlen : sh.recent.length ≤ t.config.capacity := by
    simpa using (hnd.subperm fun x hx => List.mem_range.2 (hlt x hx)).length_le
  have htail := (Config.toNat_ends_of_le hlim hs).2
  have hwalk := walkList_chain (t := t) (s := s) (by unfold ends; omega) (sh.recent.map Nat.toUInt32)
    (t.ends s).head (t.config.capacity + 1) 0 l o (by rw [← hrec, ← List.cons_append, ← chain_eq]; exact hchain)
    (fun y hy => by
      obtain ⟨x, hx, rfl⟩ := List.mem_map.1 hy
      rw [Config.toNat_toUInt32_of_le (by have := hlt x hx; omega)]
      exact hlt x hx)
    (by simp; omega) (by simp; omega)
  rw [map_toNat_toUInt32 fun x hx => by have := hlt x hx; omega] at hwalk
  -- the tail sentinel leads back to the last slot and marks the end
  have hlast : t.linkOf (t.ends s).tail = ⟨((sh.recent.map Nat.toUInt32).getLast?).getD (t.ends s).head, listEnd⟩ := by
    have hpred := hf.tail_pred he
    rw [hrec] at hpred
    rw [← hpred, ← htailsucc]
  have hfree := snapshotFree_chain (hl.free s sh hsh) (fun x hx => by have := hflt x hx; omega) t.links.size
    (by rw [hl.size]; have := hp.length_free_le hsh; omega)
  unfold checkShard
  simp only [hhead, ne_eq, not_true_eq_false, if_false, hwalk, hlast, hfree, List.length_map,
    hl.freeLen s sh hsh, if_neg (Nat.not_lt.2 (hl.freeLen s sh hsh ▸ hq s sh hsh))]
  rw [countFree_eq (by omega) sh.free _ o hflt fun x hx => (hl.free s sh hsh).pred_eq x hx]

/-- The passes over the shards meet the listed slots on the lists and the free slots off
them. -/
theorem Linked.checkShards_eq : ∀ (shs : List Shard) (s : Nat) (l o : List Nat),
    (∀ i (h : i < shs.length), t.shards[s + i]? = some shs[i]) →
    t.checkShards s shs (Tally.of t.config.capacity l o) =
      .ok (Tally.of t.config.capacity (shs.flatMap (·.recent) ++ l) (shs.flatMap (·.free) ++ o))
  | [], _, _, _, _ => rfl
  | sh :: rest, s, l, o, hget => by
    have h0 := hget 0 (by simp)
    rw [Nat.add_zero, List.getElem_cons_zero] at h0
    rw [checkShards, hl.checkShard_eq hp hq h0]
    dsimp only
    rw [Linked.checkShards_eq rest (s + 1) _ _ fun i hi => by
        have hi' := hget (i + 1) (by simp; omega)
        rwa [List.getElem_cons_succ, ← Nat.add_assoc, Nat.add_right_comm] at hi']
    simp only [List.flatMap_cons, List.append_assoc]
    rw [Tally.of_perm (List.perm_append_comm_assoc _ _ _) (List.perm_append_comm_assoc _ _ _)]

/-- The check of a table whose arena forms its lists, with every data slot in one place,
is its bucket pass: the passes over the lists, the spare pool and the membership counts all
find nothing. -/
theorem Linked.check_eq [DecidableEq κ] [CacheKey κ] (hpool : t.pool.Perm (List.range t.config.capacity)) :
    t.check = t.checkBuckets (Tally.of t.config.capacity t.listed t.owned).linked := by
  have hshards := hl.checkShards_eq hp hq t.shards.toList 0 [] [] fun i hi => by
    rw [Nat.zero_add, Array.getElem?_eq_getElem (by simpa using hi), Array.getElem_toList]
  have hspare := countSpare_eq (t := t) t.spare.reverse (t.shards.toList.flatMap (·.recent) ++ [])
    (t.shards.toList.flatMap (·.free) ++ [])
    (fun x hx => hp.lt_of_owned (mem_owned_of_spare (List.mem_reverse.1 hx)))
    (fun x hx => hl.spare x (List.mem_reverse.1 hx))
  have htally : Tally.of t.config.capacity (t.shards.toList.flatMap (·.recent) ++ [])
      (t.spare.reverse ++ (t.shards.toList.flatMap (·.free) ++ [])) =
      Tally.of t.config.capacity t.listed t.owned := by
    rw [List.append_nil, List.append_nil]
    exact Tally.of_perm (List.Perm.refl _) ((List.reverse_perm _).append_right _ |>.trans
      List.perm_append_comm)
  -- every data slot is met once, on its list or off them
  have hmem : (Tally.of t.config.capacity t.listed t.owned).membershipFailure = none := by
    refine Tally.membershipFailure_of fun x hx => ?_
    rw [← List.count_append, ← (pool_perm t).count_eq, hpool.count_eq]
    exact List.count_eq_one_of_mem List.nodup_range (List.mem_range.2 hx)
  unfold check
  rw [Tally.empty_eq, hshards]
  dsimp only
  rw [hspare]
  dsimp only
  rw [htally, hmem]

end Lists

/-! ## The pass over the buckets -/

section Buckets

/-- The step of the bucket pass that marks the slot of the bucket at `pos`. -/
def markBucket (t : Table κ ν) (seen : Array Bool) (pos : Nat) : Array Bool :=
  match t.index.get pos with
  | some slot => seen.setIfInBounds slot true
  | none => seen

/-- The slots of the buckets before `pos`, as the bucket pass has marked them on reaching
`pos`. -/
def marks (t : Table κ ν) (pos : Nat) : Array Bool :=
  (List.range pos).foldl t.markBucket (Array.replicate t.config.capacity false)

/-- The occupied buckets before `pos`, as the bucket pass has counted them. -/
def occupied (t : Table κ ν) (pos : Nat) : Nat :=
  ((List.range pos).filter fun p => (t.index.get p).isSome).length

theorem marks_succ (t : Table κ ν) (pos : Nat) : t.marks (pos + 1) = t.markBucket (t.marks pos) pos := by
  rw [marks, List.range_succ, List.foldl_append, List.foldl_cons, List.foldl_nil]
  rfl

theorem size_marks (t : Table κ ν) (pos : Nat) : (t.marks pos).size = t.config.capacity := by
  induction pos with
  | zero => exact Array.size_replicate
  | succ pos ih =>
    rw [marks_succ, markBucket]
    split
    · rw [Array.size_setIfInBounds, ih]
    · exact ih

/-- A slot is marked on reaching `pos` exactly when it is a data slot that a bucket before
`pos` holds. -/
theorem marks_iff (t : Table κ ν) (pos slot : Nat) :
    (t.marks pos)[slot]?.getD false = true ↔ slot < t.config.capacity ∧ ∃ p < pos, t.index.get p = some slot := by
  induction pos with
  | zero =>
    simp only [marks, List.range_zero, List.foldl_nil, Array.getElem?_replicate, Nat.not_lt_zero,
      false_and, exists_false, and_false, iff_false]
    split <;> simp
  | succ pos ih =>
    rw [marks_succ, markBucket]
    split
    · rename_i y hy
      rw [Array.getElem?_setIfInBounds, size_marks]
      by_cases hys : y = slot
      · subst hys
        by_cases hlt : y < t.config.capacity
        · simp only [if_true, hlt, Option.getD_some, true_and, true_iff]
          exact ⟨pos, Nat.lt_succ_self pos, hy⟩
        · simp only [if_true, hlt, if_false, Option.getD_none, Bool.false_eq_true, false_and]
      · rw [if_neg hys, ih]
        refine and_congr_right fun _ => ⟨fun ⟨p, hp, hget⟩ => ⟨p, by omega, hget⟩, fun ⟨p, hp, hget⟩ => ?_⟩
        rcases Nat.lt_succ_iff_lt_or_eq.1 hp with hp | rfl
        · exact ⟨p, hp, hget⟩
        · rw [hy] at hget
          exact absurd (Option.some.inj hget) hys
    · rename_i hnone
      rw [ih]
      refine and_congr_right fun _ => ⟨fun ⟨p, hp, hget⟩ => ⟨p, by omega, hget⟩, fun ⟨p, hp, hget⟩ => ?_⟩
      rcases Nat.lt_succ_iff_lt_or_eq.1 hp with hp | rfl
      · exact ⟨p, hp, hget⟩
      · rw [hnone] at hget
        cases hget

theorem occupied_succ (t : Table κ ν) (pos : Nat) :
    t.occupied (pos + 1) = t.occupied pos + if (t.index.get pos).isSome then 1 else 0 := by
  unfold occupied
  rw [List.range_succ, List.filter_append, List.length_append]
  split <;> simp_all

/-- Over all buckets, the occupied ones are the index's slots. -/
theorem occupied_size (t : Table κ ν) : t.occupied t.index.size = t.index.slots.length := by
  rw [occupied, ← List.countP_eq_length_filter, ← List.length_filterMap_eq_countP, ← Index.slots_eq]

variable [DecidableEq κ] [CacheKey κ]

/-- The bucket pass is a search over the positions in order, each bucket tested against the
slots of the buckets before it; when it finds nothing it has marked and counted them all. -/
theorem scanBuckets_eq_findSome? (t : Table κ ν) (linked : Array Bool) (pos fuel : Nat) :
    t.scanBuckets linked (t.marks pos) (t.occupied pos) pos fuel =
      match (List.range' pos fuel).findSome? fun p => t.bucketFailure linked (t.marks p) p with
      | some e => .error e
      | none => .ok (t.marks (pos + fuel), t.occupied (pos + fuel)) := by
  induction fuel generalizing pos with
  | zero => rfl
  | succ fuel ih =>
    rw [scanBuckets, List.range'_succ, List.findSome?_cons]
    cases hfail : t.bucketFailure linked (t.marks pos) pos with
    | some e => rfl
    | none =>
      -- the bucket passes: the pass marks and counts it and goes on from the next one
      dsimp only
      rw [show pos + (fuel + 1) = pos + 1 + fuel by omega, ← ih (pos + 1), marks_succ, occupied_succ,
        markBucket]
      cases t.index.get pos <;> rfl

end Buckets

/-! ## Tables with held buckets -/

section Held

/-- `u` is `t` with some buckets held by forgotten guards: the same geometry, hasher and
entries, and each bucket reading as in `t` or `locked`. -/
structure HeldOver (t u : Table κ ν) : Prop where
  config : u.config = t.config
  hasher : u.hasher = t.hasher
  slots : u.slots = t.slots
  size : u.index.size = t.index.size
  get : ∀ p, u.index.get p = t.index.get p ∨ u.index.get p = some bucketLocked

theorem HeldOver.refl (t : Table κ ν) : HeldOver t t := ⟨rfl, rfl, rfl, rfl, fun _ => .inl rfl⟩

variable {t u : Table κ ν}

theorem HeldOver.entry? (hu : HeldOver t u) : u.entry? = t.entry? := by
  funext slot
  simp only [Table.entry?, hu.slots]

theorem HeldOver.home (hu : HeldOver t u) (hash : UInt64) : u.index.home hash = t.index.home hash := by
  simp only [Index.home, hu.size]

variable [DecidableEq κ]

theorem HeldOver.holds (hu : HeldOver t u) : u.holds = t.holds := by
  funext hash k slot
  simp only [Table.holds, hu.entry?]

variable [CacheKey κ]

/-- The walk from the home of an entry of `t` to its bucket finds nothing in `u`: a bucket on
the way reads as in `t`, occupied by another key, or is held, which is neither free nor a
data slot. -/
theorem Invariant.pathFailure_eq_none (hi : t.Invariant) (hu : HeldOver t u) {q slot : Nat}
    {e : Entry κ ν} (hget : t.index.get q = some slot) (he : t.entry? slot = some e) :
    u.pathFailure slot q e = none := by
  have hn : 0 < t.index.size := by have := Index.get_lt hget; omega
  have hhome : t.homeOf slot = t.index.home e.hash := homeOf_of_entry he
  have hlocked : ¬ bucketLocked < t.config.capacity := by
    have := hi.placed.limit
    unfold slotIdLimit at this
    unfold bucketLocked
    omega
  unfold pathFailure
  rw [List.findSome?_eq_none_iff]
  intro step hstep
  rw [List.mem_range, hu.home, hu.size] at hstep
  have hgap : t.index.gap (t.index.home e.hash) (t.index.position (t.index.home e.hash) step) = step :=
    Index.gap_position (hi.home_lt e.hash) (Nat.lt_trans hstep (Index.gap_lt hn))
  rw [hu.home, hu.size]
  rcases hu.get ((t.index.home e.hash + step) % t.index.size) with hsame | hheld
  · -- a bucket that reads as in `t` is occupied, by another key
    obtain ⟨y, hy⟩ := hi.reachable q slot hget _ (Index.position_lt hn) (by rw [hhome, hgap]; exact hstep)
    have hy' : t.index.get ((t.index.home e.hash + step) % t.index.size) = some y := hy
    have hholds : t.holds e.hash e.key y = false := by
      cases hh : t.holds e.hash e.key y with
      | false => rfl
      | true =>
        obtain ⟨ey, hey, -, hkey⟩ := holds_iff.1 hh
        have hys : y = slot := hi.key_inj y slot ey e hey he hkey
        subst hys
        -- the slot would then be in two buckets, before and at `q`
        have hpq := hi.distinct _ q y hy hget
        rw [hpq] at hgap
        unfold Index.gap at hgap
        omega
    rw [hsame, hy']
    simp [hu.config, hu.holds, hholds]
  · rw [hheld]
    simp [hu.config, hlocked]

/-- A bucket that reads as in a table keeping the invariant passes, whatever buckets are
held elsewhere. -/
theorem Invariant.bucketFailure_eq_none (hi : t.Invariant) (hu : HeldOver t u) {linked : Array Bool}
    (hlinked : ∀ x < t.config.capacity, linked[x]?.getD false = decide (x ∈ t.listed)) {q : Nat}
    (hq : u.index.get q = t.index.get q) : u.bucketFailure linked (u.marks q) q = none := by
  unfold bucketFailure
  rw [hq]
  cases hget : t.index.get q with
  | none => rfl
  | some slot =>
    have hslot : slot ∈ t.index.slots := Index.mem_slots.2 ⟨q, hget⟩
    have hlt := hi.indexed_lt hslot
    have hne : slot ≠ bucketLocked := fun h => hi.get_ne_locked q (h ▸ hget)
    -- no earlier bucket holds the slot: it would read as in `t`, where the slot is in one bucket
    have hunmarked : (u.marks q)[slot]?.getD false = false := by
      cases hm : (u.marks q)[slot]?.getD false with
      | false => rfl
      | true =>
        obtain ⟨-, p, hp, hgetp⟩ := (marks_iff u q slot).1 hm
        have hgetp' : t.index.get p = some slot := by
          rcases hu.get p with h | h
          · rwa [← h]
          · rw [h] at hgetp
            exact absurd (Option.some.inj hgetp).symm hne
        exact absurd (hi.distinct p q slot hgetp' hget) (by omega)
    have hlisted : linked[slot]?.getD false = true := by
      rw [hlinked slot hlt, decide_eq_true_iff]
      exact hi.listed.mem_iff.2 hslot
    obtain ⟨e, he⟩ := Option.isSome_iff_exists.1 ((hi.entry_iff slot).2 hslot)
    have hhash : u.hashOf e.key = e.hash := by
      rw [hashOf, hu.hasher]
      exact (hi.hash slot e he).symm
    simp only [if_neg hne, hu.config, hunmarked, hlisted, hu.entry?, he, hhash, ne_eq, not_true_eq_false,
      if_false, Bool.false_eq_true, or_false, Nat.not_le.2 hlt]
    exact hi.pathFailure_eq_none hu hget he

/-- The bucket pass over a table keeping the invariant finds nothing, and marks and counts
every indexed slot. -/
theorem Invariant.scanBuckets_eq (hi : t.Invariant) {linked : Array Bool}
    (hlinked : ∀ x < t.config.capacity, linked[x]?.getD false = decide (x ∈ t.listed)) :
    t.scanBuckets linked (Array.replicate t.config.capacity false) 0 0 t.index.size =
      .ok (t.marks t.index.size, t.index.slots.length) := by
  have hnone : (List.range' 0 t.index.size).findSome? (fun p => t.bucketFailure linked (t.marks p) p) = none :=
    List.findSome?_eq_none_iff.2 fun p _ => hi.bucketFailure_eq_none (HeldOver.refl t) hlinked rfl
  have hscan := scanBuckets_eq_findSome? t linked 0 t.index.size
  rw [show t.marks 0 = Array.replicate t.config.capacity false from rfl, show t.occupied 0 = 0 from rfl] at hscan
  rw [hscan, hnone, Nat.zero_add, occupied_size]

/-- With buckets held, the bucket pass stops at the lowest of them. -/
theorem Invariant.scanBuckets_heldOver (hi : t.Invariant) (hu : HeldOver t u) {linked : Array Bool}
    (hlinked : ∀ x < t.config.capacity, linked[x]?.getD false = decide (x ∈ t.listed)) {P : Nat}
    (hP : P < t.index.size) (hat : u.index.get P = some bucketLocked)
    (hbelow : ∀ p < P, u.index.get p = t.index.get p) :
    u.scanBuckets linked (Array.replicate u.config.capacity false) 0 0 u.index.size =
      .error (.leftLocked P) := by
  have hsplit : List.range' 0 u.index.size = List.range' 0 P ++ P :: List.range' (P + 1) (u.index.size - P - 1) := by
    obtain ⟨m, hm⟩ : ∃ m, u.index.size = P + (m + 1) := ⟨u.index.size - P - 1, by rw [hu.size]; omega⟩
    rw [hm, ← List.range'_append_1, Nat.zero_add, List.range'_succ, show P + (m + 1) - P - 1 = m by omega]
  have hnone : (List.range' 0 P).findSome? (fun p => u.bucketFailure linked (u.marks p) p) = none :=
    List.findSome?_eq_none_iff.2 fun p hp =>
      hi.bucketFailure_eq_none hu hlinked (hbelow p (by simpa using (List.mem_range'_1.1 hp).2))
  have hstop : u.bucketFailure linked (u.marks P) P = some (.leftLocked P) := by
    rw [bucketFailure, hat]
    dsimp only
    rw [if_pos rfl]
  have hscan := scanBuckets_eq_findSome? u linked 0 u.index.size
  rw [show u.marks 0 = Array.replicate u.config.capacity false from rfl, show u.occupied 0 = 0 from rfl] at hscan
  rw [hscan, hsplit, List.findSome?_append, hnone, Option.none_or, List.findSome?_cons, hstop]

/-- Every table that keeps the invariant passes the check. -/
theorem Invariant.check (hi : t.Invariant) : t.check = .ok () := by
  have hlinked : ∀ x < t.config.capacity,
      (Tally.of t.config.capacity t.listed t.owned).linked[x]?.getD false = decide (x ∈ t.listed) :=
    fun x hx => by rw [Tally.linked_of]; simp [hx]
  -- every slot that holds an entry is in a bucket, so the pass marked it
  have hstray : t.strayFailure (t.marks t.index.size) = none := by
    rw [strayFailure, Option.map_eq_none_iff, List.find?_eq_none]
    intro slot hslot
    simp only [decide_eq_true_eq, not_and]
    intro hunmarked hentry
    obtain ⟨p, hp⟩ := Index.mem_slots.1 ((hi.entry_iff slot).1 hentry)
    have hmarked := (marks_iff t _ slot).2 ⟨List.mem_range.1 hslot, p, Index.get_lt hp, hp⟩
    rw [hunmarked] at hmarked
    cases hmarked
  rw [hi.linked.check_eq hi.placed hi.free_le hi.pool, checkBuckets, hi.scanBuckets_eq hlinked]
  dsimp only
  rw [if_neg (by rw [hi.len]; exact not_not.2 rfl), hstray]

/-- A table that keeps the invariant but for held buckets, with its lists as they were, fails
the check at the lowest held bucket: the passes over the lists find nothing, and the bucket
pass passes every bucket before it. -/
theorem Invariant.check_heldOver (hi : t.Invariant) (hu : HeldOver t u) (hl : u.Linked) (hp : u.Placed)
    (hq : u.FreeLe) (hpool : u.pool.Perm (List.range u.config.capacity)) (hlisted : u.listed.Perm t.listed)
    {P : Nat} (hP : P < t.index.size) (hat : u.index.get P = some bucketLocked)
    (hbelow : ∀ p < P, u.index.get p = t.index.get p) :
    u.check = .error (.leftLocked P) := by
  have hlinked : ∀ x < t.config.capacity,
      (Tally.of u.config.capacity u.listed u.owned).linked[x]?.getD false = decide (x ∈ t.listed) :=
    fun x hx => by rw [Tally.linked_of, hu.config]; simp [hx, hlisted.mem_iff]
  rw [hl.check_eq hp hq hpool, checkBuckets, hi.scanBuckets_heldOver hu hlinked hP hat hbelow]

end Held

end Table

end ShardCache
