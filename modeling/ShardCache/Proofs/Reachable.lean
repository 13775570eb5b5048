import ShardCache.Proofs.Fresh
/-!
# Reachable tables

A fresh table keeps the structural invariant, and so does every call through
a handle of one of its shards: every table that `Table.Reach` reaches keeps
it. Along the way the index stays the first-come layout of the entries in
the order they were created (`Table.Keeps`), which a call moves forward by
`Table.creationOrder`: entries that keep their key keep their place, and new
ones come last.

Results:
* `Invariant.keeps_perform`: every call keeps the invariant and the layout.
* `Reach.invariant_arranged`: every reachable table keeps the invariant, and
  its index is the layout of its entries in creation order.
* `invariant_of_reach`: every reachable table keeps the invariant.
-/
namespace ShardCache

namespace Table

variable {κ ν : Type}

/-! ## Creation order across a step -/

variable [DecidableEq κ]

theorem creationOrder_def (t t' : Table κ ν) (order : List Nat) :
    t.creationOrder t' order = order.filter (fun slot => decide (t'.keyOf slot = t.keyOf slot)) ++
      t'.index.slots.filter fun slot =>
        decide (slot ∉ order.filter fun slot => decide (t'.keyOf slot = t.keyOf slot)) := rfl

theorem filter_not_mem_eq_nil {l K : List Nat} (h : ∀ x ∈ l, x ∈ K) :
    l.filter (fun x => decide (x ∉ K)) = [] :=
  List.filter_eq_nil_iff.2 fun x hx => by simp [h x hx]

section Order

variable {t t' : Table κ ν} {order : List Nat}

theorem creationOrder_of_reshuffle (h : Reshuffle t t') (hperm : t.index.slots.Perm order) :
    t.creationOrder t' order = order := by
  have hkept : order.filter (fun slot => decide (t'.keyOf slot = t.keyOf slot)) = order :=
    List.filter_eq_self.2 fun slot _ => by simp [h.keyOf_eq]
  rw [creationOrder_def, hkept, h.index, filter_not_mem_eq_nil (fun x hx => hperm.mem_iff.1 hx),
    List.append_nil]

theorem creationOrder_of_drop {x start depth : Nat} (h : Drop t t' x start depth) (hnd : order.Nodup)
    (hx : t.keyOf x ≠ none) (hperm : t'.index.slots.Perm (order.erase x)) :
    t.creationOrder t' order = order.erase x := by
  have hkept : order.filter (fun slot => decide (t'.keyOf slot = t.keyOf slot)) = order.erase x := by
    rw [hnd.erase_eq_filter]
    apply List.filter_congr
    intro slot _
    rw [h.keyOf slot]
    by_cases hs : slot = x
    · subst hs
      simp [Ne.symm hx]
    · simp [hs]
  rw [creationOrder_def, hkept, filter_not_mem_eq_nil (fun y hy => hperm.mem_iff.1 hy), List.append_nil]

theorem creationOrder_of_added {y : Nat} {e : Entry κ ν} (h : Added t t' y e) (hy : y ∉ order)
    (hperm : t'.index.slots.Perm (order ++ [y])) :
    t.creationOrder t' order = order ++ [y] := by
  have hkept : order.filter (fun slot => decide (t'.keyOf slot = t.keyOf slot)) = order :=
    List.filter_eq_self.2 fun slot hs => by
      rw [h.keyOf slot, if_neg (fun hsy : slot = y => hy (hsy ▸ hs))]
      simp
  have hnew : (t'.index.slots.filter fun slot => decide (slot ∉ order)).Perm [y] := by
    have := hperm.filter (fun slot => decide (slot ∉ order))
    rw [List.filter_append, filter_not_mem_eq_nil (fun x hx => hx), List.nil_append] at this
    simpa [hy] using this
  rw [creationOrder_def, hkept, List.perm_singleton.1 hnew]

end Order

/-- Two steps, the first of which creates no entry and the second of which
gives back to no slot the key the first took from it, move the creation
order as one. -/
theorem creationOrder_trans {t₀ t₁ t₂ : Table κ ν} {order : List Nat}
    (hkeep : ∀ slot ∈ order, t₂.keyOf slot = t₀.keyOf slot → t₁.keyOf slot = t₀.keyOf slot)
    (hnone : ∀ slot ∈ t₁.index.slots, slot ∈ order ∧ t₁.keyOf slot = t₀.keyOf slot) :
    t₀.creationOrder t₂ order = t₁.creationOrder t₂ (t₀.creationOrder t₁ order) := by
  set K₁ := order.filter (fun slot => decide (t₁.keyOf slot = t₀.keyOf slot)) with hK₁
  have h₁ : t₀.creationOrder t₁ order = K₁ := by
    rw [creationOrder_def, ← hK₁, filter_not_mem_eq_nil, List.append_nil]
    intro slot hs
    obtain ⟨ho, hk⟩ := hnone slot hs
    exact List.mem_filter.2 ⟨ho, by simp [hk]⟩
  -- a slot kept by both steps is kept by the two together, and conversely
  have hK : K₁.filter (fun slot => decide (t₂.keyOf slot = t₁.keyOf slot)) =
      order.filter (fun slot => decide (t₂.keyOf slot = t₀.keyOf slot)) := by
    rw [hK₁, List.filter_filter]
    apply List.filter_congr
    intro slot hs
    by_cases h02 : t₂.keyOf slot = t₀.keyOf slot
    · simp [h02, hkeep slot hs h02]
    · by_cases h01 : t₁.keyOf slot = t₀.keyOf slot
      · simp [h02, h01]
      · simp [h02, h01]
  rw [h₁, creationOrder_def, creationOrder_def, hK]

/-! ## Steps that keep the layout -/

variable [CacheKey κ]

/-- `t'` keeps the invariant and the geometry of `t`, and its index is the
layout of its entries in the creation order that `order` gives for `t`. -/
def Keeps (t t' : Table κ ν) (order : List Nat) : Prop :=
  t'.Invariant ∧ t'.index.Arranged t'.homeOf (t.creationOrder t' order) ∧ t'.config = t.config

/-- A compare-and-swap is a lock whose function compares the value. -/
theorem compareAndSwap_eq [DecidableEq ν] (t : Table κ ν) (s : Nat) (k : κ) (expected new : ν) :
    t.compareAndSwap s k expected new =
      ((t.lockWith s k fun g => if g.value = expected then (new, Except.ok g.value)
          else (g.value, Except.error (some g.value))).1.getD (.error none),
        (t.lockWith s k fun g => if g.value = expected then (new, Except.ok g.value)
          else (g.value, Except.error (some g.value))).2) := by
  unfold compareAndSwap
  split <;> rename_i heq <;> rw [heq] <;> rfl

namespace Invariant

variable {t t' : Table κ ν} {order : List Nat}

theorem keeps_reshuffle (hi : t.Invariant) (ha : t.index.Arranged t.homeOf order) (h : Reshuffle t t') :
    Keeps t t' order := by
  rw [Keeps, creationOrder_of_reshuffle h ha.slots_perm]
  exact ⟨(hi.reshuffle ha h).1, (hi.reshuffle ha h).2, h.frame.config⟩

theorem keeps_drop (hi : t.Invariant) (ha : t.index.Arranged t.homeOf order) {x start depth : Nat}
    (h : Drop t t' x start depth) (hx : t.index.get (t.index.position start depth) = some x) :
    Keeps t t' order := by
  obtain ⟨hi', ha'⟩ := hi.drop ha h hx
  rw [Keeps, creationOrder_of_drop h ha.nodup (hi.keyOf_ne_none (Index.mem_slots.2 ⟨_, hx⟩))
    ha'.slots_perm]
  exact ⟨hi', ha', h.frame.config⟩

theorem keeps_added (hi : t.Invariant) (ha : t.index.Arranged t.homeOf order) {y : Nat} {e : Entry κ ν}
    (h : Added t t' y e) (hy : y ∉ t.listed) (hhash : e.hash = t.hashOf e.key)
    (hnew : ∀ slot e', t.entry? slot = some e' → e'.key ≠ e.key) : Keeps t t' order := by
  obtain ⟨hi', ha'⟩ := hi.added ha h hy hhash hnew
  have hyo : y ∉ order := fun h' => hy ((hi.listed.trans ha.slots_perm).mem_iff.2 h')
  rw [Keeps, creationOrder_of_added h hyo ha'.slots_perm]
  exact ⟨hi', ha', h.frame.config⟩

/-- A reshuffle or a drop keeps the layout, creates no entry, and only takes
keys away. -/
theorem shrink (hi : t.Invariant) (ha : t.index.Arranged t.homeOf order)
    (h : Reshuffle t t' ∨ ∃ x start depth, t.index.get (t.index.position start depth) = some x ∧
      Drop t t' x start depth) :
    Keeps t t' order ∧ (∀ slot ∈ t'.index.slots, slot ∈ order ∧ t'.keyOf slot = t.keyOf slot) ∧
      (∀ slot, t'.keyOf slot = t.keyOf slot ∨ t'.keyOf slot = none) := by
  rcases h with h | ⟨x, start, depth, hx, h⟩
  · refine ⟨hi.keeps_reshuffle ha h, fun slot hs => ⟨?_, by rw [h.keyOf_eq]⟩,
      fun slot => .inl (by rw [h.keyOf_eq])⟩
    rw [h.index] at hs
    exact ha.slots_perm.mem_iff.1 hs
  · have ha' := (hi.drop ha h hx).2
    refine ⟨hi.keeps_drop ha h hx, fun slot hs => ?_, fun slot => ?_⟩
    · obtain ⟨hne, hmem⟩ := ha.nodup.mem_erase_iff.1 (ha'.slots_perm.mem_iff.1 hs)
      exact ⟨hmem, by rw [h.keyOf slot, if_neg hne]⟩
    · rw [h.keyOf slot]
      split
      · exact .inr rfl
      · exact .inl rfl

/-- A shrinking step followed by a step that keeps the layout keeps it, as
long as no key the first step took away comes back. -/
theorem keeps_trans {t₁ t₂ : Table κ ν} (hi : t.Invariant) (ha : t.index.Arranged t.homeOf order)
    (h₁ : Keeps t t₁ order ∧ (∀ slot ∈ t₁.index.slots, slot ∈ order ∧ t₁.keyOf slot = t.keyOf slot) ∧
      (∀ slot, t₁.keyOf slot = t.keyOf slot ∨ t₁.keyOf slot = none))
    (h₂ : Keeps t₁ t₂ (t.creationOrder t₁ order))
    (hback : ∀ slot j, t.keyOf slot = some j → t₁.keyOf slot = none → t₂.keyOf slot ≠ some j) :
    Keeps t t₂ order := by
  obtain ⟨⟨-, -, hcfg⟩, hnone, hvanish⟩ := h₁
  rw [Keeps, creationOrder_trans ?_ hnone]
  · exact ⟨h₂.1, h₂.2.1, h₂.2.2.trans hcfg⟩
  intro slot hs h02
  rcases hvanish slot with h01 | h01
  · exact h01
  · obtain ⟨j, hj⟩ := Option.ne_none_iff_exists'.1
      (hi.keyOf_ne_none (ha.slots_perm.mem_iff.2 hs))
    exact absurd (h02.trans hj) (hback slot j hj h01)

/-! ## Calls -/

/-- The slot a probe stops at is a data slot. -/
theorem lt_of_probeKey (hi : t.Invariant) {k : κ} {start depth slot : Nat}
    (h : t.probeKey k = (start, .hit depth slot)) : slot < t.config.capacity := by
  simp only [probeKey, Prod.mk.injEq] at h
  obtain ⟨-, hget, -, -⟩ := Index.probe_hit h.2
  exact hi.indexed_lt (Index.mem_slots.2 ⟨_, hget⟩)

/-- The slot a lookup finds is a data slot. -/
theorem lt_of_find? (hi : t.Invariant) {k : κ} {start depth slot : Nat}
    (h : t.find? k = some (start, depth, slot)) : slot < t.config.capacity :=
  hi.indexed_lt (Index.mem_slots.2 ⟨_, (find?_eq_some h).2.1⟩)

theorem reshuffle_get (hi : t.Invariant) {s : Nat} (hs : s < t.config.shards) (k : κ) :
    Reshuffle t (t.get s k).2 := by
  unfold get
  split
  · rename_i hfind
    split
    · exact hi.reshuffle_promote_after (reshuffle_record t _) hs (hi.lt_of_find? hfind)
    · exact reshuffle_record t _
  · exact reshuffle_record t _

theorem reshuffle_set (hi : t.Invariant) {s : Nat} (hs : s < t.config.shards) (k : κ) (v : ν) :
    Reshuffle t (t.set s k v).2 := by
  unfold set
  split
  · rename_i hfind
    exact hi.reshuffle_promote_after ((reshuffle_setValue t _ v).trans (reshuffle_record _ _)) hs
      (hi.lt_of_find? hfind)
  · exact reshuffle_record t _

theorem reshuffle_lockWith {α : Type} (hi : t.Invariant) {s : Nat} (hs : s < t.config.shards) (k : κ)
    (f : Guard κ ν → ν × α) : Reshuffle t (t.lockWith s k f).2 := by
  unfold lockWith
  split
  · rename_i hfind
    split
    · exact hi.reshuffle_promote_after ((reshuffle_record t _).trans (reshuffle_setValue _ _ _)) hs
        (hi.lt_of_find? hfind)
    · exact reshuffle_record t _
  · exact reshuffle_record t _

/-- A removal is a reshuffle (the key is absent) or the drop of the key's
entry. -/
theorem remove_cases (hi : t.Invariant) {s : Nat} (hs : s < t.config.shards) (k : κ) :
    Reshuffle t (t.remove s k).2 ∨ ∃ x start depth, t.index.get (t.index.position start depth) = some x ∧
      Drop t (t.remove s k).2 x start depth := by
  unfold remove
  split
  · rename_i start depth slot hfind
    obtain ⟨-, hget, -⟩ := find?_eq_some hfind
    exact .inr ⟨slot, start, depth, hget, drop_unindex_detach hi hs (Index.mem_slots.2 ⟨_, hget⟩) _⟩
  · exact .inl (reshuffle_record t _)

/-- Removing keys one after another keeps the layout and only takes keys
away. -/
theorem keeps_removeAll {s : Nat} : ∀ (ks : List κ) (t : Table κ ν) (order : List Nat), t.Invariant →
    t.index.Arranged t.homeOf order → s < t.config.shards →
    Keeps t (removeAll s ks t).2 order ∧
      ∀ slot j, (removeAll s ks t).2.keyOf slot = some j → t.keyOf slot = some j
  | [], t, _, hi, ha, _ => ⟨hi.keeps_reshuffle ha (Reshuffle.refl t), fun _ _ h => h⟩
  | k :: rest, t, order, hi, ha, hs => by
    have h₁ := hi.shrink ha (hi.remove_cases hs k)
    have hvanish := h₁.2.2
    obtain ⟨h₂, hkeys⟩ := keeps_removeAll rest (t.remove s k).2 _ h₁.1.1 h₁.1.2.1
      (by rw [h₁.1.2.2]; exact hs)
    show Keeps t (removeAll s rest (t.remove s k).2).2 order ∧ _
    refine ⟨hi.keeps_trans ha h₁ h₂ fun slot j _ hnone h₂j => ?_, fun slot j h₂j => ?_⟩
    · have := hkeys slot j h₂j
      rw [hnone] at this
      cases this
    · have h₁j := hkeys slot j h₂j
      rcases hvanish slot with e | e
      · rwa [← e]
      · rw [e] at h₁j
        cases h₁j

/-- Inserting or overwriting keeps the layout and adds no key but its own. -/
theorem keeps_upsertWith {s : Nat} {k : κ} {v : ν} {overwrite : Bool} :
    ∀ (attempts : Nat) (t : Table κ ν) (order : List Nat), t.Invariant → t.index.Arranged t.homeOf order →
      s < t.config.shards →
      Keeps t (upsertWith s k v overwrite attempts t).2 order ∧
        ∀ slot j, (upsertWith s k v overwrite attempts t).2.keyOf slot = some j → t.keyOf slot = some j ∨ j = k
  | 0, t, _, hi, ha, _ => ⟨hi.keeps_reshuffle ha (Reshuffle.refl t), fun _ _ h => .inl h⟩
  | attempts + 1, t, order, hi, ha, hs => by
    have hstep : ∀ {t' : Table κ ν}, Reshuffle t t' →
        Keeps t t' order ∧ ∀ slot j, t'.keyOf slot = some j → t.keyOf slot = some j ∨ j = k :=
      fun h => ⟨hi.keeps_reshuffle ha h, fun slot j hj => .inl (by rwa [← h.keyOf_eq])⟩
    rw [upsertWith]
    split
    · rename_i depth slot hpk
      split
      · exact hstep (hi.reshuffle_promote_after ((reshuffle_setValue t _ v).trans (reshuffle_record _ _)) hs
          (hi.lt_of_probeKey hpk))
      · exact hstep (reshuffle_record t _)
    · rename_i start depth hpk
      obtain ⟨habsent, hstart, hplace⟩ := hi.probeKey_vacant hpk
      split
      · rename_i slot t' htake
        have hadd : Added t (t'.publish s slot (t.index.position start depth) ⟨k, v, t.hashOf k⟩) slot
            ⟨k, v, t.hashOf k⟩ := added_publish hi htake hs (by rw [← hstart]; exact hplace slot)
        -- the popped slot was free, so on no list
        have hfree : slot ∉ t.listed := by
          obtain ⟨-, -, -, -, -, hlisted, -⟩ := takeFree_spec hi.linked hi.placed htake
          exact fun h => (hi.takeFree_fresh htake).1 (hlisted.mem_iff.2 h)
        refine ⟨hi.keeps_added ha hadd hfree rfl habsent, fun slot' j hj => ?_⟩
        rw [hadd.keyOf slot'] at hj
        split at hj
        · exact .inr (Option.some.inj hj).symm
        · exact .inl hj
      · have h₁ := hi.shrink ha (reclaim_cases hi ha hs)
        have hvanish := h₁.2.2
        obtain ⟨h₂, hkeys⟩ := keeps_upsertWith attempts (t.reclaim s) _ h₁.1.1 h₁.1.2.1
          (by rw [h₁.1.2.2]; exact hs)
        refine ⟨hi.keeps_trans ha h₁ h₂ fun slot j hj hnone h₂j => ?_, fun slot j h₂j => ?_⟩
        · -- a key the reclaim took cannot come back: it is not the key being inserted
          rcases hkeys slot j h₂j with h₁j | rfl
          · rw [hnone] at h₁j
            cases h₁j
          · obtain ⟨e, he, hek⟩ := keyOf_eq_some.1 hj
            exact habsent slot e he hek
        · rcases hkeys slot j h₂j with h₁j | hjk
          · rcases hvanish slot with e | e
            · exact .inl (by rwa [← e])
            · rw [e] at h₁j
              cases h₁j
          · exact .inr hjk
    · exact hstep (Reshuffle.refl t)

/-- Every call through a handle of one of the shards keeps the invariant and
the layout in creation order. -/
theorem keeps_perform [DecidableEq ν] (hi : t.Invariant) (ha : t.index.Arranged t.homeOf order)
    {c : Call κ ν} (hc : c.Fits t.config.shards) : Keeps t (t.perform c).2 order := by
  cases c with
  | insert s k v => exact (keeps_upsertWith 2 t order hi ha (hc s rfl)).1
  | insertOrSet s k v => exact (keeps_upsertWith 2 t order hi ha (hc s rfl)).1
  | get s k => exact hi.keeps_reshuffle ha (hi.reshuffle_get (hc s rfl) k)
  | contains s k => exact hi.keeps_reshuffle ha (reshuffle_record t _)
  | set s k v => exact hi.keeps_reshuffle ha (hi.reshuffle_set (hc s rfl) k v)
  | remove s k => exact (hi.shrink ha (hi.remove_cases (hc s rfl) k)).1
  | lock s k newValue =>
    show Keeps t (t.lockWith s k fun g => (newValue.getD g.value, g)).2 order
    exact hi.keeps_reshuffle ha (hi.reshuffle_lockWith (hc s rfl) k _)
  | update s k f =>
    show Keeps t (t.lockWith s k fun g => (f g.value, g.value)).2 order
    exact hi.keeps_reshuffle ha (hi.reshuffle_lockWith (hc s rfl) k _)
  | compareAndSwap s k expected new =>
    show Keeps t (t.compareAndSwap s k expected new).2 order
    rw [compareAndSwap_eq]
    exact hi.keeps_reshuffle ha (hi.reshuffle_lockWith (hc s rfl) k _)
  | retain s keep => exact (keeps_removeAll _ t order hi ha (hc s rfl)).1
  | process f => exact hi.keeps_reshuffle ha (reshuffle_mapValues t f)

end Invariant

/-! ## Runs -/

/-- Every reachable table keeps the invariant, and its index is the layout of
its entries in creation order. -/
theorem Reach.invariant_arranged [DecidableEq ν] {t : Table κ ν} {order : List Nat} (h : t.Reach order) :
    t.Invariant ∧ t.index.Arranged t.homeOf order := by
  induction h with
  | build hb =>
    obtain ⟨hv, rfl⟩ := build_eq_ok_iff.1 hb
    exact invariant_create hv
  | call c _ hc ih =>
    have hk := ih.1.keeps_perform ih.2 hc
    exact ⟨hk.1, hk.2.1⟩
  | register _ hr ih =>
    obtain ⟨hlt, -, rfl⟩ := register_eq_ok_iff.1 hr
    exact ⟨{ ih.1 with registered_le := hlt, linked := ih.1.linked.of_shards_eq rfl rfl rfl rfl }, ih.2⟩
  | resetCounters _ ih => exact ⟨{ ih.1 with linked := ih.1.linked.of_shards_eq rfl rfl rfl rfl }, ih.2⟩

/-- Every table reached from a successful build by calls, registrations and counter resets
keeps the structural invariant (every data slot in one place; the link words forming each
recency list between its sentinels and each free list from its head, with `freeLen` its
length and within the quota; the listed slots the indexed ones; each entry found by probing
from its home; no two entries with one key), and no bucket, side of a link pair or free head
reads `locked`. -/
theorem invariant_of_reach [DecidableEq ν] {t : Table κ ν} {order : List Nat} (h : t.Reach order) :
    t.Invariant ∧ (∀ p, t.index.get p ≠ some bucketLocked) ∧ (∀ y d, (t.linkOf y).side d ≠ locked) ∧
      ∀ (s : Nat) (sh : Shard), t.shards[s]? = some sh → sh.freeHead ≠ locked := by
  have hi := h.invariant_arranged.1
  exact ⟨hi, hi.get_ne_locked, hi.side_ne_locked, fun _ _ hsh => hi.freeHead_ne_locked hsh⟩

/-- A fresh table of four slots, eight buckets and two shards, after one
insert through the first shard, is reachable. -/
theorem reach_insert_fresh :
    let t₀ : Table UInt64 Nat := create ⟨4, 8, 2⟩ .identity
    (t₀.perform (.insert 0 5 7)).2.Reach (t₀.creationOrder (t₀.perform (.insert 0 5 7)).2 []) :=
  Reach.call _ (Reach.build (show build ⟨4, 8, 2⟩ .identity = .ok _ from rfl)) fun s hs => by
    simp only [Call.shard?, Option.mem_def, Option.some.injEq] at hs
    subst hs
    simp

/-- One insert into a fresh table, through the first of two shards, keeps
the invariant. -/
theorem invariant_after_insert :
    let t₀ : Table UInt64 Nat := create ⟨4, 8, 2⟩ .identity
    let t := (t₀.perform (.insert 0 5 7)).2
    t.Reach (t₀.creationOrder t []) ∧ t.Invariant ∧ (∀ p, t.index.get p ≠ some bucketLocked) ∧
      (∀ y d, (t.linkOf y).side d ≠ locked) ∧
      ∀ (s : Nat) (sh : Shard), t.shards[s]? = some sh → sh.freeHead ≠ locked :=
  ⟨reach_insert_fresh, invariant_of_reach reach_insert_fresh⟩

end Table

end ShardCache
