import ShardCache.Session.Run
import ShardCache.Proofs.Checker
import ShardCache.Proofs.LockRuns
import ShardCache.Proofs.Refinement
/-!
# A forgotten guard

`lockForget` finds a key as `lockWith` does, under the guard of its probe, and forgets the
guard. The probe's run of buckets, from the key's home through its bucket, stays taken: those
buckets read `locked`, and the handle's run still records what they held. This module follows
that run from the lookup that leaves it to the probe that gives it back.

While the run is held, the table is the one the lookup alone leaves (`t.record .getHit`: one
more get hit, no promotion) but for the taken buckets and the handle's run
(`Table.holding`). The check passes over every rule it would pass without them and stops at
the run's lowest bucket: its home, or bucket `0` when the run wraps past the last bucket. The
reports answer as without the run. The next operation of the handle starts with a probe
whose assert finds the run still holding buckets: it panics with the run's length before it
changes anything, and the guard the panic unwinds through writes the recorded contents back
(`Index.release_locking`). That leaves the table of the lookup alone, with the handle's run
empty.

## Main results

* `Invariant.setRun`: giving a handle an empty run keeps the invariant.
* `holding_releaseRun`: letting go of the run gives the table back.
* `Invariant.check_holding`: the check of a table holding one run reports the run's lowest
  bucket.
* `Session.perform_of_isHeld`: a probing command through a handle whose run holds buckets
  panics with their number and lets them go.
* `forgotten_guard_recovery`: the whole cycle, from any reachable table.
-/
namespace ShardCache

namespace Table

variable {κ ν : Type}

/-! ## A handle's run -/

/-- Shard `s`'s handle keeping the run `r`. -/
def setRun (t : Table κ ν) (s : Nat) (r : ProbeRun) : Table κ ν :=
  t.modifyShard s fun sh => { sh with run := r }

/-- A view of the shards that does not look at runs is the same whatever run a handle keeps. -/
theorem map_shards_setRun {α : Type} (t : Table κ ν) (s : Nat) (r : ProbeRun) {g : Shard → α}
    (hg : ∀ sh : Shard, g { sh with run := r } = g sh) :
    (t.setRun s r).shards.map g = t.shards.map g := by
  apply Array.ext_getElem?
  intro j
  simp only [Array.getElem?_map, setRun, shards_modifyShard, Array.getElem?_modify]
  split
  · cases t.shards[j]? <;> simp [hg]
  · rfl

theorem setRun_setRun (t : Table κ ν) (s : Nat) (r r' : ProbeRun) :
    (t.setRun s r).setRun s r' = t.setRun s r' := by
  simp only [setRun, modifyShard, Table.mk.injEq, and_true, true_and]
  apply Array.ext_getElem?
  intro j
  simp only [Array.getElem?_modify]
  split <;> simp_all [Option.map_map, Function.comp_def]

theorem runOf_setRun {t : Table κ ν} {s : Nat} (hs : s < t.shards.size) (r : ProbeRun) :
    (t.setRun s r).runOf s = r := by
  simp only [runOf, setRun, shards_modifyShard, Array.getElem?_modify, if_true,
    Array.getElem?_eq_getElem hs, Option.map_some, Option.getD_some]

@[simp] theorem size_shards_setRun (t : Table κ ν) (s : Nat) (r : ProbeRun) :
    (t.setRun s r).shards.size = t.shards.size := by
  simp [setRun]

theorem pool_setRun (t : Table κ ν) (s : Nat) (r : ProbeRun) : (t.setRun s r).pool = t.pool := by
  have h := congrArg Array.toList (map_shards_setRun t s r (g := fun sh => sh.recent ++ sh.free) fun _ => rfl)
  simp only [Array.toList_map] at h
  simp only [pool, List.flatMap_def, h]
  rfl

theorem listed_setRun (t : Table κ ν) (s : Nat) (r : ProbeRun) : (t.setRun s r).listed = t.listed := by
  have h := congrArg Array.toList (map_shards_setRun t s r (g := (·.recent)) fun _ => rfl)
  simp only [Array.toList_map] at h
  simp only [listed, List.flatMap_def, h]

theorem abstract_setRun (t : Table κ ν) (s : Nat) (r : ProbeRun) : (t.setRun s r).abstract = t.abstract := by
  unfold abstract
  rw [map_shards_setRun t s r]
  · rfl
  · intro _
    rfl

/-- A shard of a table whose handle `s` keeps the run `r` is a shard of the table, with its
run replaced by `r` or not. -/
theorem exists_of_setRun {t : Table κ ν} {s j : Nat} {r : ProbeRun} {sh' : Shard}
    (h : (t.setRun s r).shards[j]? = some sh') :
    ∃ sh, t.shards[j]? = some sh ∧ (sh' = { sh with run := r } ∨ sh' = sh) := by
  rw [setRun, getElem?_shards_modifyShard] at h
  split at h
  · obtain ⟨sh, hsh, rfl⟩ := Option.map_eq_some_iff.1 h
    exact ⟨sh, hsh, .inl rfl⟩
  · exact ⟨sh', h, .inr rfl⟩

theorem FreeLe.setRun {t : Table κ ν} (hq : t.FreeLe) (s : Nat) (r : ProbeRun) : (t.setRun s r).FreeLe :=
  fun j _ h => by
    obtain ⟨sh, hsh, hsh' | hsh'⟩ := exists_of_setRun h <;> rw [hsh'] <;> exact hq j sh hsh

theorem Linked.setRun {t : Table κ ν} (hl : t.Linked) (s : Nat) (r : ProbeRun) : (t.setRun s r).Linked :=
  hl.of_modifyShard fun _ => ⟨rfl, rfl, rfl, rfl⟩

/-- Giving a handle a run that holds no bucket keeps the invariant: no rule reads a run but
the one that every run is empty. -/
theorem Invariant.setRun [CacheKey κ] {t : Table κ ν} (hi : t.Invariant) (s : Nat) {r : ProbeRun}
    (hr : r.isHeld = false) : (t.setRun s r).Invariant :=
  { hi with
    shards_size := by rw [size_shards_setRun]; exact hi.shards_size
    quota := fun j _ h => by
      obtain ⟨sh, hsh, hsh' | hsh'⟩ := exists_of_setRun h <;> rw [hsh'] <;> exact hi.quota j sh hsh
    free_le := hi.free_le.setRun s r
    idle := fun j _ h => by
      obtain ⟨sh, hsh, hsh' | hsh'⟩ := exists_of_setRun h <;> rw [hsh']
      · exact hr
      · exact hi.idle j sh hsh
    pool := by rw [pool_setRun]; exact hi.pool
    linked := hi.linked.setRun s r
    listed := by rw [listed_setRun]; exact hi.listed }

theorem Invariant.runOf_idle [CacheKey κ] {t : Table κ ν} (hi : t.Invariant) (s : Nat) :
    (t.runOf s).isHeld = false := by
  unfold runOf
  cases hs : t.shards[s]? with
  | none => rfl
  | some sh => exact hi.idle s sh hs

/-! ## Probing through a handle -/

section Probing

variable [DecidableEq κ] [CacheKey κ] {α : Type} {t : Table κ ν} {s : Nat}

/-- A handle whose run holds no bucket goes on to the operation. -/
theorem probing_of_idle (hr : (t.runOf s).isHeld = false) (k : κ) (op : Table κ ν → α × Table κ ν) :
    t.probing s k op = (.ok (op t).1, (op t).2) := by
  simp [probing, Buckets.probeWith, hr]

/-- A handle whose run still holds buckets fails the probe's assert with their number, and the
run is let go. -/
theorem probing_of_isHeld (hr : (t.runOf s).isHeld) (k : κ) (op : Table κ ν → α × Table κ ν) :
    t.probing s k op = (.error (t.runOf s).contents.length, t.releaseRun s (t.runOf s)) := by
  simp [probing, Buckets.probeWith, hr]

end Probing

/-! ## The run a forgotten guard leaves -/

/-- The table a lookup through shard `s`'s handle leaves when it forgets the guard of its
probe, after taking the first `k` buckets from `start`: those buckets read `locked`, and the
handle keeps the run that recorded them. -/
def holding (t : Table κ ν) (s start k : Nat) : Table κ ν :=
  { t with index := Index.ofBuckets (t.index.locking start k).1 }.setRun s (t.index.locking start k).2

/-- A lookup that finds its key and forgets the guard counts a get hit and leaves shard `s`
holding the run from the probe's start through the key's bucket. -/
theorem lockForget_of_find? [DecidableEq κ] [CacheKey κ] {t : Table κ ν} {k : κ} {start depth slot : Nat}
    (hfind : t.find? k = some (start, depth, slot)) (s : Nat) :
    t.lockForget s k = (some slot, (t.record .getHit).holding s start (depth + 1)) := by
  rw [lockForget, hfind]
  rfl

section Holding

variable {t : Table κ ν} {s start k : Nat}

theorem runOf_holding (hs : s < t.shards.size) : (t.holding s start k).runOf s = (t.index.locking start k).2 :=
  runOf_setRun (t := { t with index := Index.ofBuckets (t.index.locking start k).1 }) hs _

theorem ofIndex_holding : Buckets.ofIndex (t.holding s start k).index = (t.index.locking start k).1 :=
  Index.ofIndex_ofBuckets_locking

theorem get_holding {q : Nat} (hq : q < t.index.size) :
    (t.holding s start k).index.get q = if t.index.gap start q < k then some bucketLocked else t.index.get q :=
  Index.get_ofBuckets_locking hq

theorem abstract_holding : (t.holding s start k).abstract = t.abstract :=
  abstract_setRun { t with index := Index.ofBuckets (t.index.locking start k).1 } s _

theorem pool_holding : (t.holding s start k).pool = t.pool := pool_setRun _ s _

theorem listed_holding : (t.holding s start k).listed = t.listed := listed_setRun _ s _

@[simp] theorem size_holding : (t.holding s start k).index.size = t.index.size :=
  Index.size_ofBuckets_locking

theorem Linked.holding (hl : t.Linked) : (t.holding s start k).Linked :=
  Linked.setRun (t := { t with index := Index.ofBuckets (t.index.locking start k).1 })
    (hl.of_shards_eq rfl rfl rfl rfl) s _

theorem FreeLe.holding (hq : t.FreeLe) : (t.holding s start k).FreeLe :=
  FreeLe.setRun (t := { t with index := Index.ofBuckets (t.index.locking start k).1 }) hq s _

theorem Placed.holding (hp : t.Placed) : (t.holding s start k).Placed :=
  hp.of_subperm rfl (size_shards_setRun _ s _) (by rw [pool_holding])

/-- Letting go of the run writes back what it recorded: the table is the one before the
buckets were taken, its handle keeping the empty run from `start`. -/
theorem holding_releaseRun (hstart : start < t.index.size) (hk : k ≤ t.index.size) :
    (t.holding s start k).releaseRun s (t.index.locking start k).2 = t.setRun s ⟨start, []⟩ := by
  have hindex : Index.ofBuckets ((Buckets.ofIndex (t.holding s start k).index).release
      (t.index.locking start k).2) = t.index := by
    rw [ofIndex_holding, Index.release_locking hstart hk, Index.ofBuckets_ofIndex]
  unfold releaseRun
  rw [hindex]
  show (t.setRun s (t.index.locking start k).2).setRun s ⟨start, []⟩ = _
  exact setRun_setRun t s _ _

/-- Holding a run changes nothing the check reads but buckets that now read `locked`. -/
theorem heldOver_holding : HeldOver t (t.holding s start k) where
  config := rfl
  hasher := rfl
  slots := rfl
  size := size_holding
  get p := by
    by_cases hp : p < t.index.size
    · rw [get_holding hp]
      split
      · exact .inr rfl
      · exact .inl rfl
    · -- past the last bucket both indexes read free
      have hnone : ∀ ix : Index, ¬ p < ix.size → ix.get p = none := fun ix h =>
        Option.eq_none_iff_forall_ne_some.2 fun _ hx => h (Index.get_lt hx)
      left
      rw [hnone _ hp, hnone _ (by rw [size_holding]; exact hp)]

/-- The check of a table holding the run from `home` through bucket `p` reports the run's
lowest bucket: the home, or bucket `0` when the run wraps past the last bucket. -/
theorem Invariant.check_holding [DecidableEq κ] [CacheKey κ] (hi : t.Invariant) {home p : Nat}
    (hhome : home < t.index.size) (hp : p < t.index.size) :
    (t.holding s home (t.index.gap home p + 1)).check =
      .error (.leftLocked (if p < home then 0 else home)) := by
  refine hi.check_heldOver heldOver_holding hi.linked.holding hi.placed.holding hi.free_le.holding
    (by rw [pool_holding]; exact hi.pool)
    (by rw [listed_holding]) (by split <;> omega) ?_ ?_
  · -- the lowest bucket lies in the run
    rw [get_holding (by split <;> omega), if_pos]
    rw [Index.gap_eq hhome (by split <;> omega), Index.gap_eq hhome hp]
    split_ifs <;> omega
  · -- the buckets below it lie before the home and after the run's end
    intro q hq
    have hqP : q < home ∧ home ≤ p := by split at hq <;> omega
    rw [get_holding (by omega), if_neg]
    rw [Index.gap_eq hhome (by omega), Index.gap_eq hhome hp]
    split_ifs <;> omega

end Holding

/-- In a table that keeps the invariant, the probe for the key of the entry in bucket `p`
stops there, after the buckets from the key's home. -/
theorem Invariant.probeKey_of_get [DecidableEq κ] [CacheKey κ] {t : Table κ ν} (hi : t.Invariant)
    {p slot : Nat} {e : Entry κ ν} (hp : t.index.get p = some slot) (he : t.entry? slot = some e) :
    t.probeKey e.key = (t.index.home (t.hashOf e.key),
      .hit (t.index.gap (t.index.home (t.hashOf e.key)) p) slot) := by
  obtain ⟨p', hp', hprobe⟩ := hi.probeKey_hit he
  have hhome : t.homeOf slot = t.index.home (t.hashOf e.key) := by
    rw [homeOf_of_entry he, hi.hash slot e he]
  rw [hprobe, hi.distinct p' p slot hp' hp, hhome]

/-- The lock-level probe for the key of the entry in bucket `p`, through a handle of a table
that keeps the invariant, takes the buckets from the key's home through `p`, or aborts when
they are more than `maxLockDepth`. -/
theorem Invariant.probeWith_of_get [DecidableEq κ] [CacheKey κ] {t : Table κ ν} (hi : t.Invariant)
    (s : Nat) {p slot : Nat} {e : Entry κ ν} (hp : t.index.get p = some slot) (he : t.entry? slot = some e) :
    let hash := t.hashOf e.key
    let home := t.index.home hash
    (Buckets.ofIndex t.index).probeWith (t.runOf s) hash (t.holds hash e.key) =
      .ok (if t.index.gap home p < maxLockDepth then
        .done (some (t.index.gap home p), t.index.locking home (t.index.gap home p + 1)) else .aborts) := by
  intro hash home
  have hstop : (t.index.probe home (t.holds hash e.key)).stop =
      some (t.index.gap home p, some (t.index.gap home p)) := by
    have hend := congrArg Prod.snd (hi.probeKey_of_get hp he)
    simp only [Table.probeKey] at hend
    rw [hend]
    rfl
  rw [Buckets.probeWith, hi.runOf_idle s, if_neg Bool.false_ne_true,
    Index.probe_ofIndex hi.get_ne_locked hash hstop]

end Table

namespace Command

variable {κ : Type}

/-- The handle through which a command starts with a probe of the index, `none` for the
commands that probe no key. -/
def prober? : Command κ → Option Nat
  | .insert h .. | .insertOrSet h .. | .get h .. | .contains h .. | .set h .. => some h
  | .remove h .. | .update h .. | .cas h .. | .lock h .. | .lockForget h .. => some h
  | _ => none

/-- Whether a command reports on the table without reading its buckets. -/
def isReport : Command κ → Bool
  | .info | .describe | .metrics | .expose _ => true
  | _ => false

end Command

namespace Session

variable {κ : Type} [DecidableEq κ] [CacheKey κ] {t : SessionTable κ}

/-- Every probing command runs through `keyed` with its handle. -/
theorem perform_eq_keyed {c : Command κ} {h : Nat} (hc : c.prober? = some h) :
    ∃ k op, perform t c = keyed t h k op := by
  cases c <;> simp only [Command.prober?, Option.some.injEq, reduceCtorEq] at hc <;> subst hc <;>
    exact ⟨_, _, rfl⟩

/-- A probing command through a registered handle whose run still holds buckets panics with
their number before it changes anything, and the run is let go. -/
theorem perform_of_isHeld {c : Command κ} {h : Nat} (hc : c.prober? = some h) (hh : h < t.registered)
    (hr : (t.runOf h).isHeld) :
    perform t c = (.fault (.panic (.stillHolding (t.runOf h).contents.length)),
      t.releaseRun h (t.runOf h)) := by
  obtain ⟨k, op, hop⟩ := perform_eq_keyed (t := t) hc
  rw [hop, keyed, if_pos hh, Table.probing_of_isHeld hr]

/-- A lookup through a registered handle whose run is empty, of a key it finds, forgets the
guard. -/
theorem perform_lockForget {h : Nat} (hh : h < t.registered) (hidle : (t.runOf h).isHeld = false)
    {k : κ} {start depth slot : Nat} (hfind : t.find? k = some (start, depth, slot)) :
    perform t (.lockForget h k) =
      (.forgotten (some slot), (t.record .getHit).holding h start (depth + 1)) := by
  rw [perform, keyed, if_pos hh, Table.probing_of_idle hidle, Table.lockForget_of_find? hfind]

omit [DecidableEq κ] [CacheKey κ] in
theorem info_setRun (s : Nat) (r : ProbeRun) : info (t.setRun s r) = info t := by
  have h := congrArg Array.toList (t.map_shards_setRun s r (g := (·.quota)) fun _ => rfl)
  simp only [Array.toList_map] at h
  simp only [info, h]
  rfl

/-- The reports read no bucket and no run: they answer the same on a table holding a run, and
change nothing. -/
theorem perform_report_holding {c : Command κ} (hc : c.isReport) (s start k : Nat) :
    perform (t.holding s start k) c = ((perform t c).1, t.holding s start k) := by
  cases c <;> simp only [Command.isReport, Bool.false_eq_true] at hc
  case info =>
    simp only [perform, Table.holding, info_setRun]
    rfl
  all_goals rfl

/-! ## From the forgotten guard to the panic -/

/-- A guard forgotten in a reachable table, from the lookup to the panic that gives its run
back.

The lookup through handle `h` of the key of the entry in bucket `p` answers the entry's slot.
Its probe, through the handle's empty run, takes the buckets from the key's home through `p`
(or aborts, should that be more than `maxLockDepth`), and with the guard forgotten they stay
taken: they read `locked`, and the handle's run records them. Apart from them the table is
`t.record .getHit`: one more get hit, no promotion. While the run is held, the check reports
its lowest bucket and the reports answer as without it. The next command through `h` that
probes the index panics with the run's length, and its guard writes the run back: the
buckets are those of `t`, the rest is as right after the lookup, and from there the table
runs every sequence of calls as the abstract table does. -/
theorem forgotten_guard_recovery {t : SessionTable κ} {order : List Nat} (hr : t.Reach order)
    {h p slot : Nat} {e : Entry κ UInt64} (hh : h < t.registered)
    (hp : t.index.get p = some slot) (he : t.entry? slot = some e) :
    let hash := t.hashOf e.key
    let home := t.index.home hash
    let length := t.index.gap home p + 1
    let after := perform t (.lockForget h e.key)
    let recovered := (t.record .getHit).setRun h ⟨home, []⟩
    after.1 = .forgotten (some slot) ∧
    (Buckets.ofIndex t.index).probeWith (t.runOf h) hash (t.holds hash e.key) =
      .ok (if length ≤ maxLockDepth then
        .done (some (length - 1), Buckets.ofIndex after.2.index, after.2.runOf h) else .aborts) ∧
    (∀ q < t.index.size, after.2.index.get q =
      if t.index.gap home q < length then some bucketLocked else t.index.get q) ∧
    after.2.abstract = t.abstract.record .getHit ∧ after.2.len = t.len ∧
    after.2.check = .error (.leftLocked (if p < home then 0 else home)) ∧
    (∀ c : Command κ, c.isReport → perform after.2 c = ((perform (t.record .getHit) c).1, after.2)) ∧
    (∀ c : Command κ, c.prober? = some h →
      perform after.2 c = (.fault (.panic (.stillHolding length)), recovered)) ∧
    (Buckets.ofIndex after.2.index).release (after.2.runOf h) = Buckets.ofIndex t.index ∧
    recovered.index = t.index ∧ recovered.abstract = after.2.abstract ∧ recovered.len = after.2.len ∧
    ∀ cs : List (Call κ UInt64), (∀ c ∈ cs, c.Fits t.config.shards) →
      Model.Runs after.2.abstract cs (recovered.run cs).1 (recovered.run cs).2.abstract := by
  intro hash home length after recovered
  obtain ⟨hi, ha⟩ := hr.invariant_arranged
  have hprobe := hi.probeKey_of_get hp he
  have hfind : t.find? e.key = some (home, t.index.gap home p, slot) := by
    rw [Table.find?, hprobe]
  have hsz : h < t.shards.size := by
    have := hi.registered_le
    have := hi.shards_size
    omega
  have hhome : home < t.index.size := hi.home_lt hash
  have hp' : p < t.index.size := Index.get_lt hp
  have hlen : length ≤ t.index.size := Index.gap_lt (by omega)
  have hafter : after = (.forgotten (some slot), (t.record .getHit).holding h home length) :=
    perform_lockForget hh (hi.runOf_idle h) hfind
  have hrun : after.2.runOf h = (t.index.locking home length).2 := by
    rw [hafter]
    exact Table.runOf_holding hsz
  have habstract : after.2.abstract = t.abstract.record .getHit := by
    rw [hafter, Table.abstract_holding, Table.abstract_record]
  -- the panic changes neither lists nor counters: the recovered view is the held one
  have hrec : recovered.abstract = after.2.abstract := by
    rw [habstract, Table.abstract_setRun, Table.abstract_record]
  refine ⟨by rw [hafter], ?_, fun q hq => by rw [hafter]; exact Table.get_holding hq, habstract,
    by rw [hafter]; rfl, ?_, fun c hc => by rw [hafter]; exact perform_report_holding hc h home length,
    fun c hc => ?_, ?_, rfl, hrec, by rw [hafter]; rfl, fun cs hcs => ?_⟩
  · -- the probe the lookup starts with takes the run it leaves behind
    rw [hi.probeWith_of_get h hp he, hafter, Table.ofIndex_holding, ← hafter, hrun]
    -- `length ≤ maxLockDepth` is `gap < maxLockDepth` by definition
    by_cases hd : t.index.gap home p < maxLockDepth
    · rw [if_pos hd, if_pos (show length ≤ maxLockDepth from hd)]
      rfl
    · rw [if_neg hd, if_neg (show ¬length ≤ maxLockDepth from hd)]
  · rw [hafter]
    exact (hi.record .getHit).check_holding hhome hp'
  · -- the probe's assert fails on the run left behind, and the guard writes it back
    have hh' : h < after.2.registered := by
      rw [hafter]
      exact hh
    have hheld : (after.2.runOf h).isHeld := by
      rw [hrun]
      simp [ProbeRun.isHeld, Index.locking, length]
    have hrelease : after.2.releaseRun h (after.2.runOf h) = recovered := by
      rw [hrun, hafter]
      exact Table.holding_releaseRun hhome hlen
    rw [perform_of_isHeld hc hh' hheld, hrelease, hrun, Index.length_locking]
  · rw [hafter, Table.ofIndex_holding, ← hafter, hrun]
    exact Index.release_locking hhome hlen
  · -- from the recovered table every run refines the abstract table
    rw [← hrec]
    exact Table.runs_abstract cs recovered order ((hi.record .getHit).setRun h rfl) ha hcs

/-- A key inserted into a fresh table through its one registered handle and then looked up
with the guard forgotten: the check reports the key's home bucket, and the next lookup
panics with a run of one bucket. -/
theorem forgotten_guard_after_insert :
    let t₀ : SessionTable UInt64 := { Table.create ⟨4, 8, 2⟩ .identity with registered := 1 }
    let t := (t₀.perform (.insert 0 5 7)).2
    let after := perform t (.lockForget 0 5)
    t.Reach (t₀.creationOrder t []) ∧ 0 < t.registered ∧ t.index.get 5 = some 0 ∧
      t.entry? 0 = some ⟨5, 7, 5⟩ ∧ after.1 = .forgotten (some 0) ∧
      after.2.check = .error (.leftLocked 5) ∧
      perform after.2 (.get 0 5) =
        (.fault (.panic (.stillHolding 1)), (t.record .getHit).setRun 0 ⟨5, []⟩) := by
  intro t₀ t after
  have hbuild : Table.build ⟨4, 8, 2⟩ .identity = .ok (Table.create ⟨4, 8, 2⟩ .identity : SessionTable UInt64) :=
    rfl
  have hreach : t.Reach (t₀.creationOrder t []) := by
    have hreg : (Table.create ⟨4, 8, 2⟩ .identity : SessionTable UInt64).register = .ok (0, t₀) :=
      Table.register_eq_ok_iff.2 ⟨by simp, by simp, by rw [Table.registered_create]⟩
    refine Table.Reach.call _ (Table.Reach.register (Table.Reach.build hbuild) hreg) fun s hs => ?_
    simp only [Call.shard?, Option.mem_def, Option.some.injEq] at hs
    subst hs
    simp [t₀]
  have hh : 0 < t.registered := by decide +kernel
  have hp : t.index.get 5 = some 0 := by decide +kernel
  have he : t.entry? 0 = some ⟨5, 7, 5⟩ := by decide +kernel
  have hhome : t.index.home (t.hashOf 5) = 5 := by decide +kernel
  have hrecovery := forgotten_guard_recovery hreach hh hp he
  dsimp only at hrecovery
  rw [hhome, Index.gap_self] at hrecovery
  obtain ⟨hslot, -, -, -, -, hcheck, -, hpanic, -⟩ := hrecovery
  exact ⟨hreach, hh, hp, he, hslot, hcheck, hpanic _ rfl⟩

end Session

end ShardCache
