import ShardCache.Proofs.Abstract
/-!
# Tables refine the abstract table

A call on the abstract table (`ShardCache.Model`) is a function of the
table, save for two choices of order: a pass over the values lists the
entries in some order, and `retain` removes the keys it refuses one by one,
in some order. `Model.Step` says what one call may answer and leave, and
`Model.Runs` strings steps together, pairing each answer with the number of
items after the call.

A table that keeps the invariant takes each call as its view takes it: the
call answers what the abstract table answers and leaves the view of its
result (`Invariant.step_abstract`). A run of calls from a fresh table is
then a run of the abstract table from its fresh state, answer by answer and
length by length, and ends at the view of the table it reaches.

Results:
* `Invariant.find?_cases`: a lookup in the table and in its view both miss,
  or both find the key's entry.
* `upsertWith_abstract`, `Invariant.get_abstract`,
  `Invariant.remove_abstract`, `Invariant.lockWith_abstract`,
  `removeAll_abstract`: each keyed operation answers as the abstract table
  does and leaves the abstract table's result.
* `Invariant.step_abstract`: every call through a handle of one of the
  shards is a step of the view.
* `run_refines_model`: a run from a successful build is a run of the
  abstract table from its fresh state.
-/
namespace ShardCache

/-- Erasing an element that `f` drops changes nothing that `f` keeps. -/
theorem filterMap_erase_of_none {α β : Type} [DecidableEq α] {f : α → Option β} {a : α} (h : f a = none) :
    ∀ l : List α, (l.erase a).filterMap f = l.filterMap f
  | [] => rfl
  | b :: l => by
    by_cases hb : b = a
    · subst hb
      simp [h]
    · rw [List.erase_cons_tail (by simpa using hb), List.filterMap_cons, List.filterMap_cons,
        filterMap_erase_of_none h l]

namespace Model

variable {κ ν : Type} [DecidableEq κ]

/-- The keys whose entries `keep` refuses. -/
def refused (m : Model κ ν) (keep : κ → ν → Bool) : List κ :=
  (m.entries.filter fun e => !keep e.1 e.2).map (·.1)

variable [DecidableEq ν]

/-- One call on the abstract table: what it answers, and the abstract table
after it. -/
inductive Step : Model κ ν → Call κ ν → Answer κ ν → Model κ ν → Prop
  | insert {m m' : Model κ ν} {s : Nat} {k : κ} {v : ν} {b : Bool} :
    m.upsert s k v false = (b, m') → Step m (.insert s k v) (.flag b) m'
  | insertOrSet {m m' : Model κ ν} {s : Nat} {k : κ} {v : ν} {b : Bool} :
    m.upsert s k v true = (b, m') → Step m (.insertOrSet s k v) (.flag b) m'
  | get {m m' : Model κ ν} {s : Nat} {k : κ} {r : Option ν} :
    m.get s k = (r, m') → Step m (.get s k) (.value r) m'
  | contains {m m' : Model κ ν} {s : Nat} {k : κ} {b : Bool} :
    m.contains k = (b, m') → Step m (.contains s k) (.flag b) m'
  | set {m m' : Model κ ν} {s : Nat} {k : κ} {v : ν} {b : Bool} :
    m.set s k v = (b, m') → Step m (.set s k v) (.flag b) m'
  | remove {m m' : Model κ ν} {s : Nat} {k : κ} {b : Bool} :
    m.remove s k = (b, m') → Step m (.remove s k) (.flag b) m'
  /-- The guard shows the item; the value set on it, if any, is written back. -/
  | lock {m m' : Model κ ν} {s : Nat} {k : κ} {newValue : Option ν} {g : Option (Table.Guard κ ν)} :
    m.lockWith s k (fun it => (newValue.getD it.value, ⟨it.key, it.value, it.slot⟩)) = (g, m') →
      Step m (.lock s k newValue) (.guard g) m'
  | update {m m' : Model κ ν} {s : Nat} {k : κ} {f : ν → ν} {r : Option ν} :
    m.lockWith s k (fun it => (f it.value, it.value)) = (r, m') → Step m (.update s k f) (.value r) m'
  /-- A value that does not match is written back as it was, and still
  promotes the item. -/
  | compareAndSwap {m m' : Model κ ν} {s : Nat} {k : κ} {expected new : ν}
    {r : Option (Except (Option ν) ν)} :
    m.lockWith s k (fun it => if it.value = expected then (new, .ok it.value)
      else (it.value, .error (some it.value))) = (r, m') →
      Step m (.compareAndSwap s k expected new) (.swap (r.getD (.error none))) m'
  /-- The refused keys are removed one by one through shard `s`, in some
  order. -/
  | retain {m m' : Model κ ν} {s : Nat} {keep : κ → ν → Bool} {ks : List κ} {n : Nat} :
    ks.Perm (m.refused keep) → removeAll s ks m = (n, m') → Step m (.retain s keep) (.count n) m'
  /-- The pass lists the new entries in some order. -/
  | process {m : Model κ ν} {f : ν → ν} {es : List (κ × ν)} :
    es.Perm (m.mapValues f).entries → Step m (.process f) (.entries es) (m.mapValues f)

/-- A run of calls on the abstract table: each call's answer with the
number of items after it, and the abstract table at the end. -/
inductive Runs : Model κ ν → List (Call κ ν) → List (Answer κ ν × Nat) → Model κ ν → Prop
  | nil (m : Model κ ν) : Runs m [] [] m
  | cons {m m₁ m₂ : Model κ ν} {c : Call κ ν} {cs : List (Call κ ν)} {a : Answer κ ν}
    {rest : List (Answer κ ν × Nat)} :
    Step m c a m₁ → Runs m₁ cs rest m₂ → Runs m (c :: cs) ((a, m₁.len) :: rest) m₂

end Model

namespace Table

variable {κ ν : Type}

theorem setValue_record (t : Table κ ν) (e : Event) (slot : Nat) (v : ν) :
    (t.record e).setValue slot v = (t.setValue slot v).record e := by
  have hentry : Table.entry? (t.record e) slot = t.entry? slot := rfl
  unfold setValue
  rw [hentry]
  cases t.entry? slot <;> rfl

/-- Taking off its list a slot that holds no entry leaves the view as it
was. -/
theorem unlinkSlot_abstract_of_none (t : Table κ ν) {slot : Nat} (h : t.entry? slot = none) :
    (t.unlinkSlot slot).abstract = t.abstract := by
  show (⟨(t.shards.map (·.unlink slot)).map t.modelShard, t.spare, t.counters⟩ : Model κ ν) =
    ⟨t.shards.map t.modelShard, t.spare, t.counters⟩
  rw [Array.map_map]
  congr 1
  apply Array.map_congr_left
  intro sh _
  simp only [Function.comp_apply, modelShard, Shard.recent_unlink, Shard.free_unlink, Shard.quota_unlink]
  rw [filterMap_erase_of_none (by simp [itemOf, h])]

variable [CacheKey κ] {t : Table κ ν} {order : List Nat}

theorem Invariant.record (hi : t.Invariant) (e : Event) : (t.record e).Invariant :=
  { hi with linked := hi.linked.record e }

variable [DecidableEq κ]

/-- Overwriting an entry, counting an event and promoting the entry acts on
the view as on the abstract table. -/
theorem Invariant.overwrite_abstract (hi : t.Invariant) (ha : t.index.Arranged t.homeOf order) {slot : Nat}
    {e : Entry κ ν} (he : t.entry? slot = some e) (v : ν) (ev : Event) {s : Nat} (hs : s < t.config.shards) :
    (((t.setValue slot v).record ev).promote s slot).abstract =
      ((t.abstract.setValue e.key v).record ev).promote s e.key := by
  have h₁ : Reshuffle t ((t.setValue slot v).record ev) := (reshuffle_setValue t slot v).trans (reshuffle_record _ ev)
  have he₁ : Table.entry? ((t.setValue slot v).record ev) slot = some { e with value := v } := by
    show Table.entry? (t.setValue slot v) slot = _
    rw [entry?_setValue, if_pos rfl, he]
    rfl
  rw [(hi.reshuffle ha h₁).1.promote_abstract he₁ (by rw [h₁.frame.config]; exact hs), abstract_record, hi.setValue_abstract he]

/-- A lookup in the table and the same lookup in its view both miss, or both
find the key's entry. -/
theorem Invariant.find?_cases (hi : t.Invariant) (k : κ) :
    (t.find? k = none ∧ t.abstract.find? k = none) ∨
      ∃ start depth slot e, t.find? k = some (start, depth, slot) ∧ t.entry? slot = some e ∧ e.key = k ∧
        t.abstract.find? k = some ⟨e.key, e.value, slot⟩ := by
  rw [hi.find?_abstract]
  cases hf : t.find? k with
  | none => exact .inl ⟨rfl, rfl⟩
  | some p =>
    obtain ⟨start, depth, slot⟩ := p
    obtain ⟨-, -, e, he, -, hk⟩ := find?_eq_some hf
    exact .inr ⟨start, depth, slot, e, rfl, he, hk, by simp [itemOf, he]⟩

/-- A lookup answers as the abstract table does. -/
theorem Invariant.get_abstract (hi : t.Invariant) {s : Nat} (hs : s < t.config.shards) (k : κ) :
    t.abstract.get s k = (t.get s k).map id abstract := by
  unfold get Model.get
  rcases hi.find?_cases k with ⟨hf, hm⟩ | ⟨start, depth, slot, e, hf, he, rfl, hm⟩
  · rw [hf, hm]
    rfl
  · rw [hf, hm]
    simp only [he, Prod.map_apply, id]
    rw [(hi.record .getHit).promote_abstract he hs]
    rfl

theorem Invariant.contains_abstract (hi : t.Invariant) (s : Nat) (k : κ) :
    t.abstract.contains k = (t.contains s k).map id abstract := by
  unfold contains Model.contains
  rcases hi.find?_cases k with ⟨hf, hm⟩ | ⟨start, depth, slot, e, hf, he, rfl, hm⟩
  · rw [hf, hm]
    rfl
  · rw [hf, hm]
    rfl

theorem Invariant.set_abstract (hi : t.Invariant) (ha : t.index.Arranged t.homeOf order) {s : Nat}
    (hs : s < t.config.shards) (k : κ) (v : ν) : t.abstract.set s k v = (t.set s k v).map id abstract := by
  unfold set Model.set
  rcases hi.find?_cases k with ⟨hf, hm⟩ | ⟨start, depth, slot, e, hf, he, rfl, hm⟩
  · rw [hf, hm]
    rfl
  · rw [hf, hm]
    simp only [Prod.map_apply, id]
    rw [hi.overwrite_abstract ha he _ _ hs]

/-- A removal answers as the abstract table does, and gives the slot to the
caller's shard as it does. -/
theorem Invariant.remove_abstract (hi : t.Invariant) (s : Nat) (k : κ) :
    t.abstract.remove s k = (t.remove s k).map id abstract := by
  unfold remove Model.remove
  rcases hi.find?_cases k with ⟨hf, hm⟩ | ⟨start, depth, slot, e, hf, he, rfl, hm⟩
  · rw [hf, hm]
    rfl
  · rw [hf, hm]
    simp only [Prod.map_apply, id]
    set t₁ : Table κ ν := (t.unindex slot start depth).record .removeHit
    -- the removed entry's slot is still listed, and its arena slot is empty
    have hx := hi.listed_of_entry he
    have hlisted : t₁.isLinked slot = true := (hi.linked.isLinked_iff hi.placed (hi.placed.lt_of_listed hx)).2 hx
    have hnone : t₁.entry? slot = none := by
      show Table.entry? (t.writeSlot slot none) slot = none
      rw [entry?_writeSlot _ (lt_size_of_entry he), if_pos rfl]
    rw [detachRemoved, if_pos hlisted, abstract_release, unlinkSlot_abstract_of_none t₁ hnone,
      abstract_record, hi.unindex_abstract he]
    -- cutting the slot out leaves every count of free slots as it was
    intro sh hsh
    rw [shards_unlinkSlot, Array.getElem?_map, Option.map_eq_some_iff] at hsh
    obtain ⟨sh₀, hsh₀, rfl⟩ := hsh
    exact hi.linked.freeLen s sh₀ hsh₀

/-- A locked element is shown as the abstract table's item, and dropping the
guard writes the value back and promotes as the abstract table does. -/
theorem Invariant.lockWith_abstract {α : Type} (hi : t.Invariant) (ha : t.index.Arranged t.homeOf order)
    {s : Nat} (hs : s < t.config.shards) (k : κ) (f : Guard κ ν → ν × α) :
    t.abstract.lockWith s k (fun it => f ⟨it.key, it.value, it.slot⟩) = (t.lockWith s k f).map id abstract := by
  unfold lockWith Model.lockWith
  rcases hi.find?_cases k with ⟨hf, hm⟩ | ⟨start, depth, slot, e, hf, he, rfl, hm⟩
  · rw [hf, hm]
    rfl
  · rw [hf, hm]
    simp only [he, Prod.map_apply, id]
    obtain ⟨v, a⟩ := f ⟨e.key, e.value, slot⟩
    dsimp only
    rw [recordLookup, if_pos rfl, setValue_record, hi.overwrite_abstract ha he _ _ hs]
    rfl

/-- An insert or overwrite answers and acts as on the abstract table,
attempt by attempt: where the shard has no free slot, the table's reclaim is
the abstract table's. -/
theorem upsertWith_abstract {s : Nat} {k : κ} {v : ν} {overwrite : Bool} :
    ∀ (attempts : Nat) (t : Table κ ν) (order : List Nat), t.Invariant → t.index.Arranged t.homeOf order →
      s < t.config.shards →
      Model.upsertWith s k v overwrite attempts t.abstract = (upsertWith s k v overwrite attempts t).map id abstract
  | 0, _, _, _, _, _ => rfl
  | attempts + 1, t, order, hi, ha, hs => by
    rw [upsertWith, Model.upsertWith, hi.find?_abstract]
    rcases hpk : t.probeKey k with ⟨start, ⟨depth, slot⟩ | depth | _⟩
    · have hf : t.find? k = some (start, depth, slot) := by simp [find?, hpk]
      obtain ⟨-, -, e, he, -, rfl⟩ := find?_eq_some hf
      simp only [hf, Option.bind_some, itemOf, he, Option.map_some]
      cases overwrite with
      | false => rfl
      | true =>
        simp only [if_true, Prod.map_apply, id]
        rw [hi.overwrite_abstract ha he _ _ hs]
    · have hf : t.find? k = none := by simp [find?, hpk]
      simp only [hf, Option.bind_none]
      rw [takeFree_abstract hi.linked hi.placed]
      cases htake : t.takeFree s with
      | some p =>
        obtain ⟨slot, t'⟩ := p
        obtain ⟨hfree, hslot⟩ := hi.takeFree_fresh htake
        simp only [Option.map_some, Prod.map_apply, id]
        rw [publish_abstract hfree hslot]
      | none =>
        -- the next attempt starts from the reclaimed table, which keeps the layout
        have h₁ := (hi.shrink ha (reclaim_cases hi ha hs)).1
        simp only [Option.map_none]
        rw [← hi.reclaim_abstract ha s]
        exact upsertWith_abstract attempts (t.reclaim s) _ h₁.1 h₁.2.1 (by rw [h₁.2.2]; exact hs)
    · exact absurd (congrArg Prod.snd hpk) (hi.probeKey_ne_full k)

/-- Removing keys one after another answers and acts as on the abstract
table. -/
theorem removeAll_abstract {s : Nat} : ∀ (ks : List κ) (t : Table κ ν) (order : List Nat),
    t.Invariant → t.index.Arranged t.homeOf order → s < t.config.shards →
    Model.removeAll s ks t.abstract = (removeAll s ks t).map id abstract
  | [], _, _, _, _, _ => rfl
  | k :: rest, t, order, hi, ha, hs => by
    have hk := (hi.shrink ha (hi.remove_cases hs k)).1
    have ih := removeAll_abstract rest (t.remove s k).2 _ hk.1 hk.2.1 (by rw [hk.2.2]; exact hs)
    rw [Model.removeAll, removeAll, hi.remove_abstract s k]
    generalize t.remove s k = p at ih
    obtain ⟨found, t₁⟩ := p
    dsimp only [Prod.map_apply, id] at ih ⊢
    rw [ih]
    rfl

/-- Every call through a handle of one of the shards is a step of the view:
it answers what the abstract table may answer, and leaves the view of its
result. -/
theorem Invariant.step_abstract [DecidableEq ν] (hi : t.Invariant) (ha : t.index.Arranged t.homeOf order)
    {c : Call κ ν} (hc : c.Fits t.config.shards) :
    Model.Step t.abstract c (t.perform c).1 (t.perform c).2.abstract := by
  cases c with
  | insert s k v => exact .insert (upsertWith_abstract 2 t order hi ha (hc s rfl))
  | insertOrSet s k v => exact .insertOrSet (upsertWith_abstract 2 t order hi ha (hc s rfl))
  | get s k => exact .get (hi.get_abstract (hc s rfl) k)
  | contains s k => exact .contains (hi.contains_abstract s k)
  | set s k v => exact .set (hi.set_abstract ha (hc s rfl) k v)
  | remove s k => exact .remove (hi.remove_abstract s k)
  | lock s k newValue => exact .lock (hi.lockWith_abstract ha (hc s rfl) k fun g => (newValue.getD g.value, g))
  | update s k f => exact .update (hi.lockWith_abstract ha (hc s rfl) k fun g => (f g.value, g.value))
  | compareAndSwap s k expected new =>
    show Model.Step _ _ (.swap (t.compareAndSwap s k expected new).1) (t.compareAndSwap s k expected new).2.abstract
    rw [compareAndSwap_eq]
    exact .compareAndSwap (hi.lockWith_abstract ha (hc s rfl) k fun g =>
      if g.value = expected then (new, Except.ok g.value) else (g.value, Except.error (some g.value)))
  | retain s keep =>
    -- the table removes the refused keys in bucket order
    exact .retain ((hi.listing_perm.filter _).map _) (removeAll_abstract _ t order hi ha (hc s rfl))
  | process f =>
    have hperm := (hi.reshuffle ha (reshuffle_mapValues t f)).1.listing_perm
    show Model.Step _ _ (.entries (t.mapValues f).listing) (t.mapValues f).abstract
    rw [hi.mapValues_abstract f] at hperm ⊢
    exact .process hperm

/-- A run of calls through handles of the shards, from a table that keeps
the invariant, is a run of its view. -/
theorem runs_abstract [DecidableEq ν] : ∀ (cs : List (Call κ ν)) (t : Table κ ν) (order : List Nat),
    t.Invariant → t.index.Arranged t.homeOf order → (∀ c ∈ cs, c.Fits t.config.shards) →
    Model.Runs t.abstract cs (t.run cs).1 (t.run cs).2.abstract
  | [], t, _, _, _, _ => .nil t.abstract
  | c :: cs, t, order, hi, ha, hcs => by
    have hc := hcs c List.mem_cons_self
    obtain ⟨hi₁, ha₁, hcfg⟩ := hi.keeps_perform ha hc
    have hrun := runs_abstract cs (t.perform c).2 _ hi₁ ha₁ fun c' hc' => by
      rw [hcfg]
      exact hcs c' (List.mem_cons_of_mem c hc')
    show Model.Runs _ _ (((t.perform c).1, (t.perform c).2.len) :: ((t.perform c).2.run cs).1)
      ((t.perform c).2.run cs).2.abstract
    rw [← hi₁.len_abstract]
    exact .cons (hi.step_abstract ha hc) hrun

/-- Every run of calls through handles of the shards, from a table that a
successful build returns, is a run of the abstract table from its fresh
state: each call answers as the abstract table does, the table holds as many
entries after each call as the abstract table holds items, and the run ends
at the view of the table it reaches. -/
theorem run_refines_model [DecidableEq ν] {c : Config} {h : Hasher} {t : Table κ ν} (hb : build c h = .ok t)
    (cs : List (Call κ ν)) (hcs : ∀ call ∈ cs, call.Fits c.shards) :
    Model.Runs (Model.init c) cs (t.run cs).1 (t.run cs).2.abstract := by
  obtain ⟨hv, rfl⟩ := build_eq_ok_iff.1 hb
  obtain ⟨hi, ha⟩ : (create c h : Table κ ν).Invariant ∧ _ := invariant_create hv
  rw [← abstract_create c h]
  exact runs_abstract cs _ [] hi ha (by rw [config_create]; exact hcs)

/-- An insert through the first of two shards and a lookup of the same key
through the second, from a fresh table. -/
theorem run_refines_model_insert_get :
    let t : Table UInt64 Nat := create ⟨4, 8, 2⟩ .identity
    let cs : List (Call UInt64 Nat) := [.insert 0 5 7, .get 1 5]
    build ⟨4, 8, 2⟩ .identity = .ok t ∧ (∀ call ∈ cs, call.Fits 2) ∧
      Model.Runs (Model.init ⟨4, 8, 2⟩) cs (t.run cs).1 (t.run cs).2.abstract := by
  intro t cs
  have hcs : ∀ call ∈ cs, call.Fits 2 := by
    intro call hcall s hs
    simp only [cs, List.mem_cons, List.not_mem_nil, or_false] at hcall
    rcases hcall with rfl | rfl <;> simp only [Call.shard?, Option.mem_def, Option.some.injEq] at hs <;> omega
  exact ⟨rfl, hcs, run_refines_model rfl cs hcs⟩

end Table

end ShardCache
