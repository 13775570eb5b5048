import ShardCache.Proofs.LockRuns
import ShardCache.Proofs.RelinkAlone
/-!
# Sequential runs need no retry

When one thread makes every call, one after another, no lock it tries is held and no pair
it reads is stale, so every locking loop goes round once.

The bucket side is stated for every table a sequential run reaches, with no run left held.
Each probe takes the buckets from its home up to the one it stops at, every one at the first
attempt. Its run passes over occupied, distinct buckets only, so it has at most `len + 1` of
them, and `len + 1 ≤ capacity + 1 ≤ buckets`. The probe aborts exactly when the run would
need more than `maxLockDepth` buckets. After a hit, `remove_at` extends the run to the first
free bucket past the target, with the same bounds. Along a whole run of calls
(`Table.states`), every table between two calls is reachable, so each call finds no bucket
held and gives back the buckets its probes take (`Reach.probes_along`).

The list side is stated for every arena whose pairs form the lists, as between any two calls.
Each call, run alone, passes through one round of its loop and of each `update` (the places
`Detach.firstAttempt` and `Attach.firstAttempt`), and leaves the lists formed for the next
call.
-/
namespace ShardCache

namespace Table

variable {κ ν : Type} [DecidableEq κ] [CacheKey κ] [DecidableEq ν]

/-- The tables a run of calls passes through: the one before each call, then the last. -/
def states (t : Table κ ν) : List (Call κ ν) → List (Table κ ν)
  | [] => [t]
  | c :: cs => t :: (t.perform c).2.states cs

/-- Every table a run of calls from a reachable table passes through is reachable: each call
is one step of `Reach`, and a call keeps the geometry the next call fits. -/
theorem Reach.states {t : Table κ ν} {order : List Nat} (hr : t.Reach order) :
    ∀ cs : List (Call κ ν), (∀ c ∈ cs, c.Fits t.config.shards) →
      ∀ u ∈ t.states cs, ∃ order', u.Reach order'
  | [], _, u, hu => by
    rw [Table.states, List.mem_singleton] at hu
    exact ⟨order, hu ▸ hr⟩
  | c :: cs, hcs, u, hu => by
    have hc := hcs c List.mem_cons_self
    rw [Table.states, List.mem_cons] at hu
    rcases hu with rfl | hu
    · exact ⟨order, hr⟩
    · obtain ⟨hi, ha⟩ := hr.invariant_arranged
      have hcfg := (hi.keeps_perform ha hc).2.2
      exact (Reach.call c hr hc).states cs
        (fun c' hc' => by rw [hcfg]; exact hcs c' (List.mem_cons_of_mem c hc')) u hu

/-- Along a sequential run of calls, every call finds no bucket held, and each probe it makes
takes the buckets `Index.probe` passes over, at the first attempt and at most `len + 1` of
them, or aborts past `maxLockDepth`; letting the run go gives the buckets back as they were. -/
theorem Reach.probes_along {t : Table κ ν} {order : List Nat} (hr : t.Reach order)
    (cs : List (Call κ ν)) (hcs : ∀ c ∈ cs, c.Fits t.config.shards) :
    ∀ u ∈ t.states cs, u.index.Unheld ∧ ∀ (hash : UInt64) (target : Nat → Bool),
      let home := u.index.home hash
      ∃ d ans, (u.index.probe home target).stop = some (d, ans) ∧ d ≤ u.len ∧
        (Buckets.ofIndex u.index).probe hash target =
          (if d < maxLockDepth then .done (ans, u.index.locking home (d + 1)) else .aborts) ∧
        (u.index.locking home (d + 1)).1.release (u.index.locking home (d + 1)).2 =
          Buckets.ofIndex u.index := by
  intro u hu
  obtain ⟨_, hu'⟩ := hr.states cs hcs u hu
  have hi := hu'.invariant_arranged.1
  refine ⟨hi.get_ne_locked, fun hash target => ?_⟩
  obtain ⟨d, ans, hstop, hd, -, hprobe, -⟩ := hi.probe_runs hash target
  have hlt : d < u.index.size := (Index.stop_spec hstop).1
  exact ⟨d, ans, hstop, by omega, hprobe, Index.release_locking (hi.home_lt hash) hlt⟩

end Table

open Relink in
/-- Sequential runs take every lock at the first attempt, and abort only on a run longer than
`maxLockDepth`. -/
theorem sequential_runs_without_retries {κ ν : Type} [DecidableEq κ] [CacheKey κ] [DecidableEq ν]
    {t : Table κ ν} {order : List Nat} (hr : t.Reach order) {lists : List Ends} {a : Arena}
    {seqs : Ends → List UInt32} (hf : Formed lists a.link seqs) :
    (∀ (hash : UInt64) (target : Nat → Bool),
      let ix := t.index
      let home := ix.home hash
      ∃ d ans, (ix.probe home target).stop = some (d, ans) ∧
        d + 1 ≤ t.len + 1 ∧ t.len + 1 ≤ t.config.capacity + 1 ∧
        t.config.capacity + 1 ≤ t.config.buckets ∧
        ((List.range (d + 1)).map (ix.position home)).Nodup ∧
        (Buckets.ofIndex ix).probe hash target =
          (if d < maxLockDepth then .done (ans, ix.locking home (d + 1)) else .aborts) ∧
        (ans = some d → ∃ f, d < f ∧ ix.get (ix.position home f) = none ∧
          (∀ j, d < j → j < f → ix.get (ix.position home j) ≠ none) ∧
          f + 1 ≤ t.len + 1 ∧ ((List.range (f + 1)).map (ix.position home)).Nodup ∧
          ∀ homeOf : Nat → Nat,
            match (ix.locking home (d + 1)).1.removeAt (ix.locking home (d + 1)).2 d homeOf with
            | .done (b', run') => f < maxLockDepth ∧ b' = (ix.locking home (f + 1)).1 ∧
                run'.start = home ∧ run'.contents.length = f + 1
            | .waits => False
            | .aborts => maxLockDepth ≤ f)) ∧
    (∀ (x : UInt32) (g : Option UInt32), (a.link x).touchesEnd = true →
      Call.alone 1 a (.unlink x g .read) = ([.unlink x g .read], a, some none)) ∧
    (∀ (x : UInt32) (g : Option UInt32), (a.link x).touchesEnd = false →
      (Accept.ofGeneration g).test a x (a.link x) = true →
      Call.alone 12 a (.unlink x g .read) =
        ((Detach.firstAttempt a x).map (.unlink x g), { a with link := cutOut a.link x },
          some (some x)) ∧
      ∃ seqs', Formed lists (cutOut a.link x) seqs') ∧
    (∀ (x : UInt32) (g : Option UInt32), (a.link x).touchesEnd = false →
      (Accept.ofGeneration g).test a x (a.link x) = false →
      Call.alone 4 a (.unlink x g .read) =
        ([.read, .lock (a.link x), .check (a.link x), .refuse (a.link x)].map (.unlink x g), a,
          some none)) ∧
    (∀ e ∈ lists, seqs e = [] →
      Call.alone 1 a (.unlinkTail e .read) = ([.unlinkTail e .read], a, some none)) ∧
    (∀ e ∈ lists, ∀ (init : List UInt32) (v : UInt32), seqs e = init ++ [v] →
      Call.alone 13 a (.unlinkTail e .read) =
        (.unlinkTail e .read :: (Detach.firstAttempt a v).map (.unlinkTail e ∘ .detach v),
          { a with link := cutOut a.link v }, some (some v)) ∧
      ∃ seqs', Formed lists (cutOut a.link v) seqs') ∧
    (∀ e ∈ lists, ∀ x : UInt32, x ∉ nodes lists seqs → x ≠ listEnd → x ≠ locked →
      Call.alone 10 a (.linkHead e x .read) =
        ((Attach.firstAttempt a e).map (.linkHead e x),
          { a with link := spliceIn a.link e.head x }, some none) ∧
      Formed lists (spliceIn a.link e.head x) (Function.update seqs e (x :: seqs e))) := by
  have hi := hr.invariant_arranged.1
  have hcap : t.len ≤ t.config.capacity := hi.len ▸ hi.entries_le
  have hbuckets : t.config.capacity < t.config.buckets := hi.index_size ▸ hi.capacity_lt
  -- a slot cut out of a formed arena leaves it formed
  have hcut : ∀ {x : UInt32}, (a.link x).touchesEnd = false →
      ∃ seqs', Formed lists (cutOut a.link x) seqs' := fun hx => by
    obtain ⟨e, -, -, hformed⟩ := hf.cutOut hx
    exact ⟨_, hformed⟩
  refine ⟨fun hash target => ?_, fun x g hx => unlink_unlisted hx g,
    fun x g hx hg => ⟨hf.unlink_alone hx hg, hcut hx⟩, fun x g hx hg => hf.unlink_refused hx hg,
    fun e he hs => hf.unlinkTail_empty he hs, fun e he init v hs => ?_,
    fun e he x hx hxe hxl => ⟨hf.linkHead_alone he hx, hf.spliceIn he hx hxe hxl⟩⟩
  · obtain ⟨d, ans, hstop, hd, hnodup, hprobe, hremove⟩ := hi.probe_runs hash target
    exact ⟨d, ans, hstop, hd, by omega, by omega, hnodup, hprobe, hremove⟩
  · exact ⟨hf.unlinkTail_alone he hs, hcut (hf.touchesEnd_of_mem he (by simp [hs]))⟩

open Relink in
/-- A fresh table of eight buckets, and one list holding slot 2 between the sentinels 0 and
1: `unlink_tail` reads the tail once and detaches slot 2 in one round of each loop. -/
theorem sequential_runs_fresh :
    let t : Table UInt64 Nat := Table.create ⟨4, 8, 2⟩ .identity
    let a : Arena := ⟨fun z => if z = 0 then ⟨listEnd, 2⟩ else if z = 2 then ⟨0, 1⟩
      else if z = 1 then ⟨2, listEnd⟩ else Link.detached, fun _ => 0⟩
    t.Reach [] ∧ Formed [⟨0, 1⟩] a.link (fun _ => [2]) ∧
      Call.alone 13 a (.unlinkTail ⟨0, 1⟩ .read) =
        (.unlinkTail ⟨0, 1⟩ .read :: (Detach.firstAttempt a 2).map (.unlinkTail ⟨0, 1⟩ ∘ .detach 2),
          { a with link := cutOut a.link 2 }, some (some 2)) := by
  intro t a
  have hr : t.Reach [] := Table.Reach.build (show Table.build ⟨4, 8, 2⟩ .identity = .ok t from rfl)
  have hf : Formed [⟨0, 1⟩] a.link (fun _ => [2]) := by
    refine ⟨fun e he => ?_, by simp [nodes, Ends.chain],
      by simp [nodes, Ends.chain, listEnd, locked], fun y hy => ?_⟩
    · rw [List.mem_singleton] at he
      subst he
      refine ⟨rfl, rfl, ?_⟩
      simp [Ends.chain, Adjacent, a]
    · simp only [nodes, Ends.chain, List.flatMap_cons, List.flatMap_nil, List.append_nil,
        List.cons_append, List.nil_append, List.mem_cons, List.not_mem_nil, or_false, not_or] at hy
      obtain ⟨h0, h2, h1⟩ := hy
      simp [a, h0, h2, h1]
  exact ⟨hr, hf, ((sequential_runs_without_retries hr hf).2.2.2.2.2.1 ⟨0, 1⟩ (by simp) [] 2 rfl).1⟩

end ShardCache
