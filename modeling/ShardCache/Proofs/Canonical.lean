import ShardCache.Proofs.Reachable
/-!
# The index does not remember its history

In every reachable table the index holds exactly the canonical layout of the
live entries taken in the order they were created: starting from free
buckets, each entry's slot goes into the first free bucket at or after its
key's home, cyclically. Overwrites, promotions and the removal or eviction
of other entries do not change an entry's place in that order, so the layout
depends on which entries live and when each was made, not on what happened
to the others. Removing an entry by backward shift leaves the layout the
table would have had if the entry had never been inserted, and a pass over
the values visits the entries in the canonical bucket order.

Results:
* `entry?_mapValues`: a pass over the values changes each indexed entry's
  value once.
* `index_eq_canonical`: the canonical layout of every reachable table.
-/
namespace ShardCache

namespace Table

variable {κ ν : Type}

theorem entry?_setValue (t : Table κ ν) (slot : Nat) (v : ν) (y : Nat) :
    Table.entry? (t.setValue slot v) y =
      if y = slot then (t.entry? y).map fun e => { e with value := v } else t.entry? y := by
  unfold setValue
  cases he : t.entry? slot with
  | none =>
    by_cases hy : y = slot
    · subst hy
      simp [he]
    · simp [hy]
  | some e =>
    dsimp only
    rw [entry?_writeSlot _ (lt_size_of_entry he)]
    by_cases hy : y = slot
    · subst hy
      simp [he]
    · simp [hy]

/-- A pass over the values of distinct slots changes the value of each of
them once. -/
theorem entry?_foldl_setValue (f : ν → ν) (slot : Nat) :
    ∀ (l : List Nat) (t : Table κ ν), l.Nodup →
      Table.entry? (l.foldl (fun t y =>
        match t.entry? y with
        | some e => t.setValue y (f e.value)
        | none => t) t) slot =
      if slot ∈ l then (t.entry? slot).map (fun e => { e with value := f e.value }) else t.entry? slot
  | [], t, _ => by simp
  | y :: rest, t, hnd => by
    obtain ⟨hy, hrest⟩ := List.nodup_cons.1 hnd
    rw [List.foldl_cons, entry?_foldl_setValue f slot rest _ hrest]
    -- the step at `y` changes the value at `y` only
    have hstep : Table.entry? (match t.entry? y with
        | some e => t.setValue y (f e.value)
        | none => t) slot =
        if slot = y then (t.entry? slot).map (fun e => { e with value := f e.value }) else t.entry? slot := by
      cases he : t.entry? y with
      | none =>
        by_cases hs : slot = y
        · subst hs
          simp [he]
        · simp [hs]
      | some e =>
        dsimp only
        rw [entry?_setValue]
        by_cases hs : slot = y
        · subst hs
          simp [he]
        · simp [hs]
    rw [hstep]
    by_cases hs : slot = y
    · subst hs
      simp [hy]
    · simp [hs]

/-- A pass over the values changes each indexed entry's value once. -/
theorem entry?_mapValues (t : Table κ ν) (f : ν → ν) (hnd : t.index.slots.Nodup) (slot : Nat) :
    Table.entry? (t.mapValues f) slot =
      if slot ∈ t.index.slots then (t.entry? slot).map (fun e => { e with value := f e.value })
      else t.entry? slot :=
  entry?_foldl_setValue f slot _ t hnd

variable [CacheKey κ]

/-- The home bucket of the key in a slot: the key's hash under the table's
hasher, modulo the number of buckets (bucket `0` for an empty slot). -/
def keyHome (t : Table κ ν) (slot : Nat) : Nat :=
  match t.entry? slot with
  | some e => (t.hashOf e.key).toNat % t.config.buckets
  | none => 0

/-- An entry's stored hash gives the same home as its key. -/
theorem Invariant.keyHome_eq {t : Table κ ν} (hi : t.Invariant) {slot : Nat} (h : slot ∈ t.index.slots) :
    t.keyHome slot = t.homeOf slot := by
  obtain ⟨e, he⟩ := Option.isSome_iff_exists.1 ((hi.entry_iff slot).2 h)
  rw [homeOf_of_entry he, hi.hash slot e he]
  simp only [keyHome, he, Index.home, hi.index_size]

variable [DecidableEq κ]

/-- In every reachable table, `order` lists each live entry's slot once, in
creation order; the index is the canonical layout of those slots, each at
the first free bucket from its key's home; removing the entry in any bucket
by backward shift gives the canonical layout without it; and a pass over the
values visits the entries in the canonical bucket order. -/
theorem index_eq_canonical [DecidableEq ν] {t : Table κ ν} {order : List Nat} (h : t.Reach order) :
    order.Nodup ∧ (∀ slot, slot ∈ order ↔ (t.entry? slot).isSome) ∧
      t.index = Index.canonical t.config.buckets t.keyHome order ∧
      (∀ start depth x, t.index.get (t.index.position start depth) = some x →
        t.index.removeAt t.homeOf start depth =
          Index.canonical t.config.buckets t.keyHome (order.erase x)) ∧
      ∀ f, (t.perform (.process f)).1 =
        .entries ((Index.canonical t.config.buckets t.keyHome order).slots.filterMap fun slot =>
          (t.entry? slot).map fun e => (e.key, f e.value)) := by
  obtain ⟨hi, ha⟩ := h.invariant_arranged
  have hmem : ∀ slot, slot ∈ order ↔ slot ∈ t.index.slots := fun slot => ha.slots_perm.mem_iff.symm
  have hhome : ∀ y ∈ order, t.keyHome y = t.homeOf y := fun y hy => hi.keyHome_eq ((hmem y).1 hy)
  have hcanon : t.index = Index.canonical t.config.buckets t.keyHome order := by
    rw [← hi.index_size]
    exact (ha.congr hhome).eq_canonical
  refine ⟨ha.nodup, fun slot => (hmem slot).trans (hi.entry_iff slot).symm, hcanon, ?_, ?_⟩
  · intro start depth x hx
    have hlen : order.length < t.index.size := by
      rw [← ha.slots_perm.length_eq]
      exact hi.entries_lt
    have hr := ha.removeAt hx hlen
    rw [← hi.index_size, ← Index.size_removeAt t.index t.homeOf start depth]
    exact (hr.congr fun y hy => hhome y (List.mem_of_mem_erase hy)).eq_canonical
  · intro f
    have hmap : (t.mapValues f).index = t.index := (reshuffle_mapValues t f).index
    show Answer.entries (t.mapValues f).listing = _
    rw [← hcanon]
    unfold listing
    rw [hmap]
    congr 1
    apply List.filterMap_congr
    intro slot hs
    rw [entry?_mapValues t f hi.indexed_nodup slot, if_pos hs]
    cases t.entry? slot <;> rfl

/-- One insert into a fresh table, through the first of two shards, reaches a
table whose index is its canonical layout. -/
theorem index_eq_canonical_after_insert :
    let t₀ : Table UInt64 Nat := create ⟨4, 8, 2⟩ .identity
    let t := (t₀.perform (.insert 0 5 7)).2
    let order := t₀.creationOrder t []
    t.Reach order ∧ order.Nodup ∧ (∀ slot, slot ∈ order ↔ (t.entry? slot).isSome) ∧
      t.index = Index.canonical t.config.buckets t.keyHome order ∧
      (∀ start depth x, t.index.get (t.index.position start depth) = some x →
        t.index.removeAt t.homeOf start depth =
          Index.canonical t.config.buckets t.keyHome (order.erase x)) ∧
      ∀ f, (t.perform (.process f)).1 =
        .entries ((Index.canonical t.config.buckets t.keyHome order).slots.filterMap fun slot =>
          (t.entry? slot).map fun e => (e.key, f e.value)) :=
  ⟨reach_insert_fresh, index_eq_canonical reach_insert_fresh⟩

end Table

end ShardCache
