import Mathlib.Data.Nat.Find
import ShardCache.Concurrent.BucketLocks
import ShardCache.Proofs.Reachable
/-!
# Runs of bucket locks

What the lock-level `Buckets.probe` and `Buckets.removeAt` do on the buckets of an index
that no operation holds (`Index.Unheld`: no bucket reads `locked`), which is how every
operation of a sequential run finds them.
`Index.locking ix start k` is the state once the first `k` buckets from `start` have been
taken: those read `locked`, the others keep their content, and the run records the `k`
contents in order.

* `probe_ofIndex`: a probe takes the buckets `Index.probe` passes over and the one it stops
  at, and answers the depth of a target or `none` for a free bucket. It aborts exactly when
  that needs more than `maxLockDepth` buckets, and never meets a bucket it holds itself.
* `removeAt_locking`: after a hit, the backward shift takes the buckets up to the first free
  one after the target, and aborts exactly when that needs more than `maxLockDepth`.
* `le_length_slots`: the buckets a run passes over are distinct and occupied, so there are
  no more of them than entries.
* `release_locking`: releasing a run gives the buckets back as they were, so the next
  operation of a sequential run finds no bucket held.
-/
namespace ShardCache

/-- Two bucket arrays with the same words are equal. -/
theorem Buckets.eq_of_words {b b' : Buckets} (h : ∀ p : Nat, b.words[p]? = b'.words[p]?) : b = b' := by
  cases b
  cases b'
  congr 1
  exact Array.ext_getElem? h

/-- Where a probe of the index stopped and what the lock-level probe answers there. -/
def Probe.stop : Probe → Option (Nat × Option Nat)
  | .hit d _ => some (d, some d)
  | .vacant d => some (d, none)
  | .full => none

/-- A word read back as a content is the content it was written for. -/
@[simp] theorem Word.toContent_ofContent (c : Option Nat) : (Word.ofContent c).toContent = c := by
  cases c with
  | none => rfl
  | some id => by_cases h : id = bucketLocked <;> simp [Word.ofContent, Word.toContent, h]

/-- An index kept as words and read back is itself. -/
@[simp] theorem Index.ofBuckets_ofIndex (ix : Index) : Index.ofBuckets (Buckets.ofIndex ix) = ix := by
  simp [Index.ofBuckets, Buckets.ofIndex, Function.comp_def]

namespace Index

/-- What the lock-level probe answers at a bucket of content `c`, `d` buckets into its run:
the depth for a target, `none` for a free bucket, and nothing (it goes on) otherwise. -/
def answerAt (target : Nat → Bool) (d : Nat) : Option Nat → Option (Option Nat)
  | none => some none
  | some y => if target y then some (some d) else none

/-- No bucket reads `locked`: no operation holds a run of the index. -/
def Unheld (ix : Index) : Prop := ∀ p, ix.get p ≠ some bucketLocked

section Locking

variable {ix : Index} {start k : Nat}

@[simp] theorem size_words_locking : (ix.locking start k).1.words.size = ix.size := Array.size_ofFn

@[simp] theorem size_locking : (ix.locking start k).1.size = ix.size := Array.size_ofFn

@[simp] theorem start_locking : (ix.locking start k).2.start = start := rfl

@[simp] theorem length_locking : (ix.locking start k).2.contents.length = k := by
  simp [locking]

theorem words_locking (p : Nat) :
    (ix.locking start k).1.words[p]? =
      if p < ix.size then some (if ix.gap start p < k then .locked else .ofContent (ix.get p))
      else none := by
  simp only [locking, Array.getElem?_ofFn]
  split <;> rfl

/-- Nothing is taken before the first bucket. -/
theorem locking_zero (start : Nat) : (ix.locking start 0).1 = Buckets.ofIndex ix := by
  apply Buckets.eq_of_words
  intro p
  rw [words_locking, Buckets.ofIndex, Array.getElem?_map]
  split
  · rename_i hp
    simp [get, Array.getElem?_eq_getElem (show p < ix.cells.size from hp)]
  · rename_i hp
    rw [Array.getElem?_eq_none (by simpa [size] using hp)]
    rfl

/-- A bucket other than the one `j` after `start` does not lie `j` after it. -/
theorem gap_ne_of_position_ne (hs : start < ix.size) {p j : Nat} (hp : p < ix.size)
    (hne : ix.position start j ≠ p) : ix.gap start p ≠ j :=
  fun h => hne (by rw [← h, position_gap hs hp])

/-- Taking the next bucket locks one more. -/
theorem write_locking (hs : start < ix.size) (hk : k < ix.size) :
    (ix.locking start k).1.write (ix.position start k) .locked = (ix.locking start (k + 1)).1 := by
  have hpos : ix.position start k < ix.size := position_lt (by omega)
  apply Buckets.eq_of_words
  intro p
  rw [Buckets.write, Array.getElem?_setIfInBounds, words_locking, words_locking]
  by_cases hp : ix.position start k = p
  · subst hp
    simp [hpos, gap_position hs hk]
  · rw [if_neg hp]
    split
    · rename_i hpl
      -- `p` is not the bucket just taken, so it lies `k` buckets from `start` in neither state
      have hgap := gap_ne_of_position_ne hs hpl hp
      congr 2
      exact propext ⟨fun h => by omega, fun h => by omega⟩
    · rfl

theorem run_locking_succ :
    { (ix.locking start k).2 with
        contents := (ix.locking start k).2.contents ++ [ix.get (ix.position start k)] } =
      (ix.locking start (k + 1)).2 := by
  simp [locking, List.range_succ]

/-- `lock_next` on a run of `k` buckets takes the next one at its first attempt: it is not
one of the `k`, so it does not read `locked`. -/
theorem lockNext_locking (hu : ix.Unheld) (hs : start < ix.size) (hk : k < ix.size) (hdepth : k < maxLockDepth)
    {run : ProbeRun} (hstart : run.start = start) (hlen : run.contents.length = k) :
    (ix.locking start k).1.lockNext run =
      .done (ix.get (ix.position start k), (ix.locking start (k + 1)).1,
        { run with contents := run.contents ++ [ix.get (ix.position start k)] }) := by
  have hpos : ix.position start k < ix.size := position_lt (by omega)
  have hword : (ix.locking start k).1.words[ix.position start k]? =
      some (.ofContent (ix.get (ix.position start k))) := by
    rw [words_locking, if_pos hpos, gap_position hs hk, if_neg (Nat.lt_irrefl k)]
  have hat : (run.start + run.contents.length) % (ix.locking start k).1.size =
      ix.position start k := by
    rw [hstart, hlen, size_locking]
    rfl
  unfold Buckets.lockNext Buckets.lockBucket
  rw [if_neg (by omega), hat, hword, ← write_locking hs hk]
  -- the bucket is free or holds a slot: a content of an unheld index never reads `locked`
  cases hc : ix.get (ix.position start k) with
  | none => rfl
  | some id =>
    have hid : id ≠ bucketLocked := fun h => hu _ (by rw [hc, h])
    simp only [Word.ofContent, if_neg hid]

/-- The words of a partly taken index survive being read as contents and written back:
`locked` reads as `some bucketLocked`, which is written as `locked`. -/
theorem ofIndex_ofBuckets_locking :
    Buckets.ofIndex (ofBuckets (ix.locking start k).1) = (ix.locking start k).1 := by
  apply Buckets.eq_of_words
  intro p
  simp only [Buckets.ofIndex, ofBuckets, Array.map_map, Array.getElem?_map, words_locking]
  split
  · split
    · simp [Word.toContent, Word.ofContent]
    · simp only [Option.map_some, Function.comp_apply, Word.toContent_ofContent]
  · rfl

/-- The index a forgotten guard leaves: the taken buckets read `some bucketLocked`, the
others keep their content. -/
theorem get_ofBuckets_locking {q : Nat} (hq : q < ix.size) :
    (ofBuckets (ix.locking start k).1).get q =
      if ix.gap start q < k then some bucketLocked else ix.get q := by
  simp only [get, ofBuckets, Array.getElem?_map, words_locking, if_pos hq, Option.map_some,
    Option.join_some]
  split
  · rfl
  · exact Word.toContent_ofContent _

@[simp] theorem size_ofBuckets_locking : (ofBuckets (ix.locking start k).1).size = ix.size := by
  simp [ofBuckets, size]

end Locking

theorem lockNext_aborts {b : Buckets} {run : ProbeRun} (h : maxLockDepth ≤ run.contents.length) :
    b.lockNext run = .aborts := by
  unfold Buckets.lockNext
  rw [if_pos h]

section Probe

variable {ix : Index} {start : Nat} {target : Nat → Bool}

/-- A probe of the index that stops does so inside the ring, past buckets holding no target,
at a bucket where the lock-level probe answers. -/
theorem stop_spec {d : Nat} {ans : Option Nat} (h : (ix.probe start target).stop = some (d, ans)) :
    d < ix.size ∧ ix.Passes start target 0 d ∧
      answerAt target d (ix.get (ix.position start d)) = some ans := by
  cases hp : ix.probe start target with
  | hit d' y =>
    rw [hp, Probe.stop, Option.some.injEq, Prod.mk.injEq] at h
    obtain ⟨rfl, rfl⟩ := h
    obtain ⟨hd, hy, ht, hpass⟩ := probe_hit hp
    exact ⟨hd, hpass, by rw [hy, answerAt, if_pos ht]⟩
  | vacant d' =>
    rw [hp, Probe.stop, Option.some.injEq, Prod.mk.injEq] at h
    obtain ⟨rfl, rfl⟩ := h
    obtain ⟨hd, hfree, hpass⟩ := probe_vacant hp
    exact ⟨hd, hpass, by rw [hfree, answerAt]⟩
  | full => rw [hp, Probe.stop] at h; cases h

/-- The probe loop from the first `k` buckets of its run on, towards the bucket at depth `d`
where the probe of the index stops. Each round takes the next bucket; the loop answers at
`d`, or aborts once the run holds `maxLockDepth` buckets. -/
theorem probeLoop_locking (hu : ix.Unheld) (hs : start < ix.size) {d : Nat} {ans : Option Nat} (hd : d < ix.size)
    (hpass : ix.Passes start target 0 d)
    (hstop : answerAt target d (ix.get (ix.position start d)) = some ans) :
    ∀ (fuel k : Nat), k ≤ d → maxLockDepth < k + fuel →
      Buckets.probeLoop target fuel (ix.locking start k).1 (ix.locking start k).2 =
        if d < maxLockDepth then .done (ans, ix.locking start (d + 1)) else .aborts
  | 0, k, hkd, hfuel => by
    rw [Buckets.probeLoop, if_neg (by omega)]
  | fuel + 1, k, hkd, hfuel => by
    by_cases hdepth : k < maxLockDepth
    · rw [Buckets.probeLoop, lockNext_locking hu hs (by omega) hdepth rfl length_locking,
        run_locking_succ]
      rcases Nat.lt_or_ge k d with hlt | hge
      · -- a bucket before the stop holds a slot that is not a target: the loop goes on
        obtain ⟨y, hy, hty⟩ := hpass k (Nat.zero_le _) hlt
        rw [hy]
        dsimp only
        rw [hty, if_neg Bool.false_ne_true]
        exact probeLoop_locking hu hs hd hpass hstop fuel (k + 1) hlt (by omega)
      · obtain rfl : k = d := by omega
        rw [if_pos hdepth]
        cases hc : ix.get (ix.position start k) with
        | none =>
          rw [hc, answerAt, Option.some.injEq] at hstop
          rw [← hstop]
        | some y =>
          rw [hc, answerAt] at hstop
          split at hstop
          · rename_i ht
            rw [Option.some.injEq] at hstop
            dsimp only
            rw [if_pos ht, length_locking, Nat.add_sub_cancel, hstop]
          · cases hstop
    · rw [Buckets.probeLoop, lockNext_aborts (by rw [length_locking]; omega), if_neg (by omega)]

/-- A probe on buckets no operation holds takes the run of `Index.probe` from the home of
`hash`: it answers where that probe stops, holding the buckets up to there, or aborts when
this needs more than `maxLockDepth` of them. -/
theorem probe_ofIndex (hu : ix.Unheld) (hash : UInt64) {d : Nat} {ans : Option Nat}
    (h : (ix.probe (ix.home hash) target).stop = some (d, ans)) :
    (Buckets.ofIndex ix).probe hash target =
      if d < maxLockDepth then .done (ans, ix.locking (ix.home hash) (d + 1)) else .aborts := by
  obtain ⟨hd, hpass, hstop⟩ := stop_spec h
  have hs : ix.home hash < ix.size := Nat.mod_lt _ (by omega)
  have hrun : (⟨hash.toNat % (Buckets.ofIndex ix).size, []⟩ : ProbeRun) =
      (ix.locking (ix.home hash) 0).2 := by
    rw [← locking_zero (ix.home hash), size_locking]
    rfl
  rw [Buckets.probe, hrun, ← locking_zero (ix.home hash)]
  exact probeLoop_locking hu hs hd hpass hstop _ 0 (Nat.zero_le _) (by decide)

/-- Slots 3, 7 and 11 all at home 3 of four buckets: the probe for 11 wraps round and holds
the three buckets from the home on. -/
example :
    (Buckets.ofIndex ⟨#[some 7, some 11, none, some 3]⟩).probe 3 (· == 11) =
      .done (some 2, ⟨#[.locked, .locked, .free, .locked]⟩, ⟨3, [some 3, some 7, some 11]⟩) := by
  decide +kernel

end Probe

section Shift

variable {ix : Index} {start : Nat} (homeOf : Nat → Nat)

/-- The shift loop on a run of `next` buckets, walking towards the free bucket at depth `f`:
it takes each bucket up to `f` at its first attempt and stops there, or aborts once the run
holds `maxLockDepth` buckets. Only the run's length and the locked buckets are followed; the
recorded contents are what the shift rewrites. -/
theorem shiftLoop_locking (hu : ix.Unheld) (hs : start < ix.size) {f : Nat} (hf : f < ix.size)
    (hfree : ix.get (ix.position start f) = none) :
    ∀ (fuel next hole : Nat) (run : ProbeRun), hole < next → next ≤ f →
      (∀ j, next ≤ j → j < f → ix.get (ix.position start j) ≠ none) →
      run.start = start → run.contents.length = next → maxLockDepth < next + fuel →
      match Buckets.shiftLoop homeOf fuel (ix.locking start next).1 run hole next with
      | .done (b', run') => f < maxLockDepth ∧ b' = (ix.locking start (f + 1)).1 ∧
          run'.start = start ∧ run'.contents.length = f + 1
      | .waits => False
      | .aborts => maxLockDepth ≤ f
  | 0, next, hole, run, _, hnf, _, _, _, hfuel => by
    rw [Buckets.shiftLoop]
    dsimp only
    omega
  | fuel + 1, next, hole, run, hhole, hnf, hocc, hstart, hlen, hfuel => by
    rw [Buckets.shiftLoop]
    -- the walk is always at the end of the run, so every round takes a new bucket
    rw [dif_neg (by omega)]
    by_cases hdepth : next < maxLockDepth
    · rw [lockNext_locking hu hs (by omega) hdepth hstart hlen]
      rcases Nat.lt_or_ge next f with hlt | hge
      · obtain ⟨y, hy⟩ := Option.ne_none_iff_exists'.1 (hocc next (Nat.le_refl _) hlt)
        have hocc' : ∀ j, next + 1 ≤ j → j < f → ix.get (ix.position start j) ≠ none :=
          fun j hj hjf => hocc j (by omega) hjf
        rw [hy]
        dsimp only
        split_ifs
        · exact shiftLoop_locking hu hs hf hfree fuel (next + 1) next _ (by omega) hlt hocc'
            hstart (by simp [hlen])
            (by omega)
        · exact shiftLoop_locking hu hs hf hfree fuel (next + 1) hole _ (by omega) hlt hocc'
            hstart (by simp [hlen]) (by omega)
      · obtain rfl : next = f := by omega
        rw [hfree]
        dsimp only
        exact ⟨hdepth, rfl, hstart, by simp [hlen]⟩
    · rw [lockNext_aborts (by omega)]
      dsimp only
      omega

/-- `remove_at` after a probe hit at depth `d` takes the buckets from the target up to the
first free one after it, at depth `f`, or aborts when that needs more than `maxLockDepth`;
it never meets a bucket its run holds. -/
theorem removeAt_locking (hu : ix.Unheld) (hs : start < ix.size) {d f : Nat} (hdf : d < f) (hf : f < ix.size)
    (hfree : ix.get (ix.position start f) = none)
    (hocc : ∀ j, d < j → j < f → ix.get (ix.position start j) ≠ none) :
    match (ix.locking start (d + 1)).1.removeAt (ix.locking start (d + 1)).2 d homeOf with
    | .done (b', run') => f < maxLockDepth ∧ b' = (ix.locking start (f + 1)).1 ∧
        run'.start = start ∧ run'.contents.length = f + 1
    | .waits => False
    | .aborts => maxLockDepth ≤ f :=
  shiftLoop_locking homeOf hu hs hf hfree _ (d + 1) d _ (Nat.lt_succ_self d) hdf
    (fun j hj hjf => hocc j hj hjf) rfl length_locking (by omega)

end Shift

section Release

variable {ix : Index} {start : Nat}

/-- Writing back the contents recorded from depth `j` on unlocks the buckets from depth `j`
to `k`, each with its old content. -/
theorem releaseFrom_locking (hs : start < ix.size) {k : Nat} (hk : k ≤ ix.size) :
    ∀ (n j : Nat) (b : Buckets), j + n = k →
      (∀ p : Nat, b.words[p]? = if p < ix.size then
        some (if j ≤ ix.gap start p ∧ ix.gap start p < k then .locked else .ofContent (ix.get p))
        else none) →
      b.releaseFrom start j ((List.range' j n).map fun i => ix.get (ix.position start i)) =
        Buckets.ofIndex ix
  | 0, j, b, hjk, hb => by
    rw [List.range'_zero, List.map_nil, Buckets.releaseFrom, ← locking_zero start]
    refine Buckets.eq_of_words fun p => ?_
    rw [hb, words_locking]
    split
    · rw [if_neg (by omega), if_neg (by omega)]
    · rfl
  | n + 1, j, b, hjk, hb => by
    have hsize : b.words.size = ix.size := by
      rcases Nat.lt_trichotomy b.words.size ix.size with h | h | h
      · have hp := hb b.words.size
        rw [if_pos h, Array.getElem?_eq_none (Nat.le_refl _)] at hp
        cases hp
      · exact h
      · have hp := hb ix.size
        rw [if_neg (Nat.lt_irrefl _), Array.getElem?_eq_getElem h] at hp
        cases hp
    have hj : j < ix.size := by omega
    rw [List.range'_succ, List.map_cons, Buckets.releaseFrom]
    refine releaseFrom_locking hs hk n (j + 1) _ (by omega) fun p => ?_
    -- the write unlocks the bucket at depth `j`; every other bucket keeps its word
    have hat : (start + j) % b.size = ix.position start j := by
      rw [show b.size = ix.size from hsize]
      rfl
    rw [hat, Buckets.write, Array.getElem?_setIfInBounds, hsize]
    by_cases hp : ix.position start j = p
    · subst hp
      rw [if_pos rfl, if_pos (position_lt (by omega)), if_pos (position_lt (by omega)),
        gap_position hs hj, if_neg (by omega)]
    · rw [if_neg hp, hb]
      split
      · rename_i hpl
        have hgap := gap_ne_of_position_ne hs hpl hp
        congr 2
        exact propext ⟨fun h => by omega, fun h => by omega⟩
      · rfl

/-- Releasing a run of `k` buckets taken from an index that no operation held gives the
buckets back as they were. -/
theorem release_locking (hs : start < ix.size) {k : Nat} (hk : k ≤ ix.size) :
    (ix.locking start k).1.release (ix.locking start k).2 = Buckets.ofIndex ix := by
  rw [Buckets.release, start_locking]
  show (ix.locking start k).1.releaseFrom start 0
    ((List.range k).map fun i => ix.get (ix.position start i)) = _
  rw [List.range_eq_range']
  exact releaseFrom_locking hs hk k 0 _ (Nat.zero_add k) fun p => by
    rw [words_locking]
    simp only [Nat.zero_le, true_and]

end Release

section Count

variable {ix : Index} {start : Nat}

/-- The first `m` buckets from `start` are distinct while `m` is at most the ring. -/
theorem nodup_positions (hs : start < ix.size) {m : Nat} (hm : m ≤ ix.size) :
    ((List.range m).map (ix.position start)).Nodup := by
  refine List.nodup_range.map_on ?_
  intro i hi k hk h
  rw [List.mem_range] at hi hk
  rcases Nat.lt_trichotomy i k with hik | hik | hik
  · exact absurd h (position_ne hs hik (by omega))
  · exact hik
  · exact absurd h.symm (position_ne hs hik (by omega))

/-- The first `m` buckets from `start`, all occupied, are no more than the entries. -/
theorem le_length_slots (hs : start < ix.size) {m : Nat} (hm : m ≤ ix.size)
    (hocc : ∀ j < m, ix.get (ix.position start j) ≠ none) : m ≤ ix.slots.length := by
  have hsub : (List.range m).map (ix.position start) ⊆
      (List.range ix.size).filter fun p => (ix.get p).isSome := by
    intro p hp
    obtain ⟨j, hj, rfl⟩ := List.mem_map.1 hp
    rw [List.mem_range] at hj
    rw [List.mem_filter, List.mem_range]
    exact ⟨position_lt (by omega), Option.isSome_iff_ne_none.2 (hocc j hj)⟩
  have hle := (nodup_positions hs hm).length_le_of_subset hsub
  rw [List.length_map, List.length_range, ← List.countP_eq_length_filter,
    ← List.length_filterMap_eq_countP, ← slots_eq] at hle
  exact hle

/-- Past occupied buckets at depths `0` to `d`, a ring with a free bucket has a first free
one. -/
theorem exists_first_free (hs : start < ix.size) {d : Nat}
    (hocc : ∀ j ≤ d, ix.get (ix.position start j) ≠ none) (hfree : ∃ p < ix.size, ix.get p = none) :
    ∃ f, d < f ∧ f < ix.size ∧ ix.get (ix.position start f) = none ∧
      ∀ j, d < j → j < f → ix.get (ix.position start j) ≠ none := by
  classical
  have hex : ∃ f, d < f ∧ f < ix.size ∧ ix.get (ix.position start f) = none := by
    obtain ⟨p, hp, hpf⟩ := hfree
    refine ⟨ix.gap start p, ?_, gap_lt (by omega), by rw [position_gap hs hp]; exact hpf⟩
    by_contra hle
    exact hocc (ix.gap start p) (by omega) (by rw [position_gap hs hp]; exact hpf)
  obtain ⟨hdf, hf, hfree'⟩ := Nat.find_spec hex
  refine ⟨Nat.find hex, hdf, hf, hfree', fun j hdj hjf hnone => ?_⟩
  exact Nat.find_min hex hjf ⟨hdj, by omega, hnone⟩

end Count

end Index

namespace Table

variable [CacheKey κ] {t : Table κ ν}

/-- A probe of a table keeping the invariant stops: the ring has a free bucket. -/
theorem Invariant.exists_stop (hi : t.Invariant) {start : Nat} (hs : start < t.index.size)
    (target : Nat → Bool) : ∃ d ans, (t.index.probe start target).stop = some (d, ans) := by
  cases hp : t.index.probe start target with
  | hit d y => exact ⟨d, some d, rfl⟩
  | vacant d => exact ⟨d, none, rfl⟩
  | full =>
    obtain ⟨p, hp', hfree⟩ := hi.exists_free_bucket
    obtain ⟨y, hy⟩ := Index.probe_full hs hp p hp'
    rw [hfree] at hy
    cases hy

/-- After a hit at depth `d` of a probe from `start`, `remove_at` extends the run to the first
free bucket after the target, at depth `f`. The buckets before it are distinct and occupied,
so `f ≤ len`; the shift takes each at the first attempt, and aborts only past
`maxLockDepth`. -/
theorem Invariant.remove_run (hi : t.Invariant) {start d : Nat} (hs : start < t.index.size)
    (hupto : ∀ j ≤ d, t.index.get (t.index.position start j) ≠ none) :
    ∃ f, d < f ∧ t.index.get (t.index.position start f) = none ∧
      (∀ j, d < j → j < f → t.index.get (t.index.position start j) ≠ none) ∧
      f + 1 ≤ t.len + 1 ∧ ((List.range (f + 1)).map (t.index.position start)).Nodup ∧
      ∀ homeOf : Nat → Nat,
        match (t.index.locking start (d + 1)).1.removeAt (t.index.locking start (d + 1)).2 d
          homeOf with
        | .done (b', run') => f < maxLockDepth ∧ b' = (t.index.locking start (f + 1)).1 ∧
            run'.start = start ∧ run'.contents.length = f + 1
        | .waits => False
        | .aborts => maxLockDepth ≤ f := by
  obtain ⟨f, hdf, hf, hfree, hocc⟩ := Index.exists_first_free hs hupto hi.exists_free_bucket
  have hflen : f ≤ t.len := hi.len ▸ Index.le_length_slots hs (by omega) fun j hj =>
    if hjd : j ≤ d then hupto j hjd else hocc j (by omega) hj
  exact ⟨f, hdf, hfree, hocc, by omega, Index.nodup_positions hs hf,
    fun homeOf => Index.removeAt_locking homeOf hi.get_ne_locked hs hdf hf hfree hocc⟩

/-- The runs of bucket locks of a table keeping the invariant, whose buckets no operation
holds. A probe from the home of `hash` stops at depth `d`, past `d` occupied buckets, so its
run has at most `len + 1` distinct buckets. The lock-level probe takes them, each at its
first attempt, and answers there, or aborts when that is more than `maxLockDepth`. After a
hit, `remove_at` extends the run to the first free bucket after the target, again over
distinct buckets at most `len + 1`, and again aborts only past `maxLockDepth`. -/
theorem Invariant.probe_runs (hi : t.Invariant) (hash : UInt64) (target : Nat → Bool) :
    let ix := t.index
    let home := ix.home hash
    ∃ d ans, (ix.probe home target).stop = some (d, ans) ∧
      d + 1 ≤ t.len + 1 ∧ ((List.range (d + 1)).map (ix.position home)).Nodup ∧
      (Buckets.ofIndex ix).probe hash target =
        (if d < maxLockDepth then .done (ans, ix.locking home (d + 1)) else .aborts) ∧
      (ans = some d → ∃ f, d < f ∧ ix.get (ix.position home f) = none ∧
        (∀ j, d < j → j < f → ix.get (ix.position home j) ≠ none) ∧
        f + 1 ≤ t.len + 1 ∧ ((List.range (f + 1)).map (ix.position home)).Nodup ∧
        ∀ homeOf : Nat → Nat,
          match (ix.locking home (d + 1)).1.removeAt (ix.locking home (d + 1)).2 d homeOf with
          | .done (b', run') => f < maxLockDepth ∧ b' = (ix.locking home (f + 1)).1 ∧
              run'.start = home ∧ run'.contents.length = f + 1
          | .waits => False
          | .aborts => maxLockDepth ≤ f) := by
  dsimp only
  have hs : t.index.home hash < t.index.size := hi.home_lt hash
  obtain ⟨d, ans, hstop⟩ := hi.exists_stop hs target
  obtain ⟨hd, hpass, hans⟩ := Index.stop_spec hstop
  have hbefore : ∀ j < d, t.index.get (t.index.position (t.index.home hash) j) ≠ none :=
    fun j hj => by
      obtain ⟨y, hy, -⟩ := hpass j (Nat.zero_le _) hj
      rw [hy]
      exact Option.some_ne_none y
  have hlen : d ≤ t.len := hi.len ▸ Index.le_length_slots hs (by omega) hbefore
  refine ⟨d, ans, hstop, by omega, Index.nodup_positions hs hd, Index.probe_ofIndex hi.get_ne_locked hash hstop,
    fun hhit => ?_⟩
  -- a hit leaves the target's bucket occupied, so the buckets up to it all are
  have hat : t.index.get (t.index.position (t.index.home hash) d) ≠ none := fun h => by
    rw [h, Index.answerAt, hhit] at hans
    cases hans
  have hupto : ∀ j ≤ d, t.index.get (t.index.position (t.index.home hash) j) ≠ none :=
    fun j hj => by
      rcases Nat.lt_or_eq_of_le hj with hj | rfl
      · exact hbefore j hj
      · exact hat
  exact hi.remove_run hs hupto

end Table

end ShardCache
