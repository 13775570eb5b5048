import ShardCache.Table.Abstract
import ShardCache.Proofs.Capacity
import ShardCache.Proofs.Canonical
/-!
# The abstract view follows every step

`Table.abstract` forgets the index and the arena: each shard becomes the
list of its items `(key, value, slot)`, most recently used first, with its
free stack and quota, beside the spare pool and the counters. This module
shows, step by step, that the operations of a table act on its view as the
operations of the abstract table (`ShardCache.Model`) do, as long as the
table keeps the invariant: the view reads the shards, the spare pool, the
counters and the entries of listed slots, and each step changes these as
its abstract counterpart does.

Results:
* `abstract_congr`: the view reads only the shards, the spare pool, the
  counters and the entries of listed slots.
* `Invariant.find?_abstract`: the view finds a key where the table does.
* `Invariant.promote_abstract`, `Invariant.setValue_abstract`,
  `Invariant.unindex_abstract`, `abstract_release`, `publish_abstract`: the
  view after each step of the keyed operations.
* `Invariant.reclaim_abstract`: a reclaim takes the slot the abstract table
  takes.
* `Invariant.len_abstract`, `Invariant.listing_perm`: the view counts the
  entries, and lists them up to order.
-/
namespace ShardCache

/-- A list whose matches are all one element finds that element. -/
theorem find?_eq_some_of_unique {α : Type} {l : List α} {p : α → Bool} {a : α} (ha : a ∈ l) (hp : p a)
    (hu : ∀ b ∈ l, p b → b = a) : l.find? p = some a := by
  cases h : l.find? p with
  | none => exact absurd hp (List.find?_eq_none.1 h a ha)
  | some b => rw [hu b (List.mem_of_find?_eq_some h) (List.find?_some h)]

namespace Model

variable {κ ν : Type}

/-- The entries of the abstract table, shard after shard, each shard's from
its most recently used item on. -/
def entries (m : Model κ ν) : List (κ × ν) :=
  m.shards.toList.flatMap fun sh => sh.items.map fun it => (it.key, it.value)

/-- The number of items is the length of all the shards' lists together. -/
theorem len_eq (m : Model κ ν) : m.len = (m.shards.toList.flatMap (·.items)).length := by
  have h : ∀ (l : List (ModelShard κ ν)) (n : Nat),
      l.foldl (fun n sh => n + sh.items.length) n = n + (l.flatMap (·.items)).length := by
    intro l
    induction l with
    | nil => simp
    | cons sh l ih =>
      intro n
      rw [List.foldl_cons, ih, List.flatMap_cons, List.length_append]
      omega
  rw [len, ← Array.foldl_toList, h, Nat.zero_add]

end Model

namespace Table

variable {κ ν : Type}

/-! ## The view of a shard -/

/-- The view of one shard: the items of its listed slots, its free stack and
its quota. -/
def modelShard (t : Table κ ν) (sh : Shard) : ModelShard κ ν :=
  ⟨sh.recent.filterMap t.itemOf, sh.free, sh.quota⟩

theorem shards_abstract (t : Table κ ν) : t.abstract.shards = t.shards.map t.modelShard := rfl

theorem getElem?_shards_abstract (t : Table κ ν) (s : Nat) :
    t.abstract.shards[s]? = t.shards[s]?.map t.modelShard := by
  rw [shards_abstract, Array.getElem?_map]

/-- The items of the view, shard after shard, are those of the listed slots. -/
theorem flatMap_items_abstract (t : Table κ ν) :
    t.abstract.shards.toList.flatMap (·.items) = t.listed.filterMap t.itemOf := by
  rw [shards_abstract, Array.toList_map, List.flatMap_map, listed, List.filterMap_flatMap]
  rfl

theorem abstract_record (t : Table κ ν) (e : Event) : (t.record e).abstract = t.abstract.record e := rfl

/-- Changing one shard changes its view only. -/
theorem abstract_modifyShard (t : Table κ ν) (s : Nat) (f : Shard → Shard) (g : ModelShard κ ν → ModelShard κ ν)
    (h : ∀ sh, t.shards[s]? = some sh → t.modelShard (f sh) = g (t.modelShard sh)) :
    (t.modifyShard s f).abstract = t.abstract.modifyShard s g := by
  show (⟨(t.shards.modify s f).map t.modelShard, t.spare, t.counters⟩ : Model κ ν) =
    ⟨(t.shards.map t.modelShard).modify s g, t.spare, t.counters⟩
  congr 1
  apply Array.ext_getElem?
  intro j
  rw [Array.getElem?_map, Array.getElem?_modify, Array.getElem?_modify, Array.getElem?_map]
  split
  · rename_i hsj
    subst hsj
    cases hsh : t.shards[s]? with
    | none => rfl
    | some sh => simp [h sh hsh]
  · rfl

/-- The view reads the entries, not the link words. -/
theorem itemOf_congr {t t' : Table κ ν} (h : t'.slots = t.slots) : t'.itemOf = t.itemOf := by
  funext y
  simp [itemOf, entry?, h]

theorem modelShard_congr {t t' : Table κ ν} (h : t'.slots = t.slots) : t'.modelShard = t.modelShard := by
  funext sh
  simp [modelShard, itemOf_congr h]

@[simp] theorem abstract_setLinks (t : Table κ ν) (y : UInt32) (w : Link) :
    (t.setLinks y w).abstract = t.abstract := rfl

/-- A release gives the slot where the abstract table gives it, once the shard's count of
free slots is the length of its free list. -/
theorem abstract_release (t : Table κ ν) (s slot : Nat)
    (hlen : ∀ sh, t.shards[s]? = some sh → sh.freeLen = sh.free.length) :
    (t.release s slot).abstract = t.abstract.release s slot := by
  have hroom : (t.shards[s]?.map (·.hasRoom)).getD false =
      (t.abstract.shards[s]?.map fun sh => decide (sh.free.length < sh.quota)).getD false := by
    rw [getElem?_shards_abstract]
    cases hsh : t.shards[s]? with
    | none => rfl
    | some sh => simp [Shard.hasRoom, modelShard, hlen sh hsh]
  unfold Model.release
  rw [← hroom]
  split
  · rename_i h
    -- the slot goes on the free list, counted; the view sees only the list
    have hview : (t.release s slot).abstract =
        (t.modifyShard s fun sh => { sh.pushFree slot with freeLen := sh.freeLen + 1 }).abstract := by
      show (⟨(t.release s slot).shards.map (t.release s slot).modelShard, (t.release s slot).spare,
        (t.release s slot).counters⟩ : Model κ ν) = ⟨_, t.spare, t.counters⟩
      rw [shards_release_push slot h, modelShard_congr (slots_release t s slot)]
      unfold release pushFree
      rw [if_pos h]
      split <;> rfl
    rw [hview]
    exact abstract_modifyShard t s _ _ fun _ _ => rfl
  · rename_i h
    unfold release
    rw [if_neg h]
    rfl

/-- Popping a free slot pops it in the view. -/
theorem takeFree_abstract {t : Table κ ν} (hl : t.Linked) (hp : t.Placed) (s : Nat) :
    t.abstract.takeFree s = (t.takeFree s).map fun p => (p.1, p.2.abstract) := by
  cases hf : t.takeFree s with
  | none =>
    cases hsh : t.shards[s]? with
    | none => simp [Model.takeFree, getElem?_shards_abstract, hsh]
    | some sh =>
      have hfree := (hl.takeFree_eq_none_iff hp hsh).1 hf
      simp [Model.takeFree, getElem?_shards_abstract, hsh, modelShard, hfree]
  | some p =>
    obtain ⟨slot, t'⟩ := p
    obtain ⟨sh, hsh, hhead, -, rfl⟩ := hl.takeFree hp hf
    obtain ⟨rest, hfree⟩ : ∃ rest, sh.free = slot :: rest := by
      cases h : sh.free with
      | nil => rw [h] at hhead; cases hhead
      | cons a rest =>
        rw [h] at hhead
        cases hhead
        exact ⟨rest, rfl⟩
    simp only [Model.takeFree, getElem?_shards_abstract, hsh, Option.map_some, modelShard, hfree,
      Option.some.injEq, Prod.mk.injEq, true_and]
    rw [abstract_modifyShard _ s _ (fun sh => { sh with free := rest }) fun sh' hsh' => ?_, abstract_setLinks]
    rw [shards_setLinks, hsh] at hsh'
    cases hsh'
    simp [modelShard, hfree]

/-- A step that keeps the shards, the spare pool and the counters, and
changes the item of each listed slot by `φ`, changes every shard's items by
`φ` in the view. -/
theorem abstract_of_items {t t' : Table κ ν} (φ : Item κ ν → Option (Item κ ν))
    (hshards : t'.shards = t.shards) (hspare : t'.spare = t.spare) (hcounters : t'.counters = t.counters)
    (hitem : ∀ y ∈ t.listed, t'.itemOf y = (t.itemOf y).bind φ) :
    t'.abstract = { t.abstract with
      shards := t.abstract.shards.map fun sh => { sh with items := sh.items.filterMap φ } } := by
  have hmap : t'.shards.map t'.modelShard =
      (t.shards.map t.modelShard).map fun sh => { sh with items := sh.items.filterMap φ } := by
    rw [hshards, Array.map_map]
    apply Array.map_congr_left
    intro sh hsh
    obtain ⟨r, hr⟩ := Array.mem_iff_getElem?.1 hsh
    simp only [Function.comp_apply, modelShard, List.filterMap_filterMap, ModelShard.mk.injEq, and_true]
    exact List.filterMap_congr fun y hy => hitem y (mem_listed.2 ⟨r, sh, hr, hy⟩)
  show (⟨t'.shards.map t'.modelShard, t'.spare, t'.counters⟩ : Model κ ν) =
    ⟨(t.shards.map t.modelShard).map _, t.spare, t.counters⟩
  rw [hmap, hspare, hcounters]

/-- The view reads only the shards, the spare pool, the counters and the
entries of listed slots. -/
theorem abstract_congr {t t' : Table κ ν} (hshards : t'.shards = t.shards) (hspare : t'.spare = t.spare)
    (hcounters : t'.counters = t.counters) (hitem : ∀ y ∈ t.listed, t'.itemOf y = t.itemOf y) :
    t'.abstract = t.abstract := by
  have hmap : t'.shards.map t'.modelShard = t.shards.map t.modelShard := by
    rw [hshards]
    apply Array.map_congr_left
    intro sh hsh
    obtain ⟨r, hr⟩ := Array.mem_iff_getElem?.1 hsh
    simp only [modelShard, ModelShard.mk.injEq, and_true]
    exact List.filterMap_congr fun y hy => hitem y (mem_listed.2 ⟨r, sh, hr, hy⟩)
  show (⟨t'.shards.map t'.modelShard, t'.spare, t'.counters⟩ : Model κ ν) =
    ⟨t.shards.map t.modelShard, t.spare, t.counters⟩
  rw [hmap, hspare, hcounters]

/-- Writing the arena slot of an entry that no list holds leaves the view as
it was. -/
theorem unindex_abstract_of_unlisted {t : Table κ ν} {v : Nat} (hv : v ∉ t.listed) (start depth : Nat) :
    (t.unindex v start depth).abstract = t.abstract := by
  refine abstract_congr ?_ ?_ ?_ fun y hy => ?_
  · rfl
  · rfl
  · rfl
  have hyv : y ≠ v := fun h => hv (h ▸ hy)
  show (Table.entry? (t.writeSlot v none) y).map _ = _
  by_cases hvs : v < t.slots.size
  · rw [entry?_writeSlot _ hvs, if_neg hyv]
    rfl
  · simp [writeSlot, Array.setIfInBounds, hvs]
    rfl

/-- Placing a new entry in a slot that no list holds puts its item at the
front of shard `s`'s list in the view. -/
theorem publish_abstract {t : Table κ ν} {s y pos : Nat} {e : Entry κ ν} (hy : y ∉ t.listed) (hys : y < t.slots.size) :
    (t.publish s y pos e).abstract =
      (t.abstract.modifyShard s fun sh => { sh with items := ⟨e.key, e.value, y⟩ :: sh.items }).record
        .insertNew := by
  set t₁ : Table κ ν := t.writeSlot y (some e)
  set t₂ : Table κ ν := { t₁ with index := t₁.index.write pos (some y), len := t₁.len + 1 }
  have hitem : ∀ z, t₂.itemOf z = if z = y then some ⟨e.key, e.value, y⟩ else t.itemOf z := by
    intro z
    show (Table.entry? (t.writeSlot y (some e)) z).map _ = _
    rw [entry?_writeSlot _ hys]
    by_cases hzy : z = y
    · subst hzy
      simp
    · simp [hzy, itemOf]
  -- writing the unlisted slot leaves the view as it was
  have h₂ : t₂.abstract = t.abstract := by
    refine abstract_congr ?_ ?_ ?_ fun z hz => ?_
    · rfl
    · rfl
    · rfl
    rw [hitem, if_neg fun h : z = y => hy (h ▸ hz)]
  show ((t₂.modifyShard s (·.link y)).record .insertNew).abstract = _
  rw [abstract_record, abstract_modifyShard t₂ s _ (fun sh => { sh with items := ⟨e.key, e.value, y⟩ :: sh.items })
    fun sh _ => by simp [modelShard, hitem], h₂]

/-- Linking a slot at the head of shard `s`'s list puts its item first there in the view. -/
theorem abstract_linkHead (t : Table κ ν) (s slot : Nat) {it : Item κ ν} (h : t.itemOf slot = some it) :
    (t.linkHead s slot).abstract = t.abstract.modifyShard s fun sh => { sh with items := it :: sh.items } := by
  unfold linkHead
  dsimp only
  rw [abstract_modifyShard _ s _ (fun sh => { sh with items := it :: sh.items }) fun sh _ => by
    simp [modelShard, itemOf_congr (slots_setLinks ..), h]]
  simp only [abstract_setLinks]

/-- A pass over the values touches only the arena. -/
theorem mapValues_frame (t : Table κ ν) (f : ν → ν) :
    (t.mapValues f).shards = t.shards ∧ (t.mapValues f).spare = t.spare ∧
      (t.mapValues f).counters = t.counters := by
  unfold mapValues
  generalize t.index.slots = l
  induction l generalizing t with
  | nil => exact ⟨rfl, rfl, rfl⟩
  | cons y rest ih =>
    rw [List.foldl_cons]
    refine ⟨(ih _).1.trans ?_, (ih _).2.1.trans ?_, (ih _).2.2.trans ?_⟩ <;> split <;>
      simp only [setValue] <;> split <;> rfl

theorem filterMap_eq_of_getLast? {α β : Type} {f : α → Option β} {l : List α} {a : α} {b : β}
    (hl : l.getLast? = some a) (hf : f a = some b) : l.filterMap f = l.dropLast.filterMap f ++ [b] := by
  obtain ⟨l', rfl⟩ := List.getLast?_eq_some_iff.1 hl
  simp [List.filterMap_append, hf]

/-- Choosing the first result and then reading it agrees with choosing the
first readable result, when every result is readable. -/
theorem findSome?_bind {α β γ : Type} {F : α → Option β} {g : β → Option γ} :
    ∀ {l : List α}, (∀ a ∈ l, ∀ b, F a = some b → (g b).isSome) →
      l.findSome? (fun a => (F a).bind g) = (l.findSome? F).bind g
  | [], _ => rfl
  | a :: l, h => by
    rw [List.findSome?_cons, List.findSome?_cons]
    cases hF : F a with
    | none =>
      simp only [Option.bind_none]
      exact findSome?_bind fun a' ha' => h a' (List.mem_cons_of_mem a ha')
    | some b =>
      obtain ⟨c, hc⟩ := Option.isSome_iff_exists.1 (h a List.mem_cons_self b hF)
      simp [hc]

/-! ## The view of a table that keeps the invariant -/

variable [CacheKey κ] {t : Table κ ν}

/-- Every listed slot holds an entry, whose item the view shows. -/
theorem Invariant.itemOf_listed (hi : t.Invariant) {y : Nat} (hy : y ∈ t.listed) :
    ∃ e, t.entry? y = some e ∧ t.itemOf y = some ⟨e.key, e.value, y⟩ := by
  obtain ⟨e, he⟩ := Option.isSome_iff_exists.1 ((hi.entry_iff y).2 (hi.listed.mem_iff.1 hy))
  exact ⟨e, he, by simp [itemOf, he]⟩

theorem Invariant.listed_of_entry (hi : t.Invariant) {y : Nat} {e : Entry κ ν} (he : t.entry? y = some e) :
    y ∈ t.listed :=
  hi.listed.mem_iff.2 ((hi.entry_iff y).1 (by simp [he]))

theorem Invariant.recent_nodup (hi : t.Invariant) {r : Nat} {sh : Shard} (hsh : t.shards[r]? = some sh) :
    sh.recent.Nodup := by
  have hmem : sh ∈ t.shards.toList := Array.mem_toList_iff.2 (Array.mem_of_getElem? hsh)
  have hnd := (List.nodup_append.1 hi.pool_nodup).1
  exact ((List.nodup_flatMap.1 hnd).1 sh hmem).of_append_left

/-- The view counts the entries. -/
theorem Invariant.len_abstract (hi : t.Invariant) : t.abstract.len = t.len := by
  rw [Model.len_eq, flatMap_items_abstract, hi.len, ← hi.listed.length_eq, List.filterMap_length_eq_length]
  intro y hy
  obtain ⟨e, -, hitem⟩ := hi.itemOf_listed hy
  simp [hitem]

/-- The view's last item of a shard is the item of the table's last listed
slot there, and taking it off is taking the slot off. -/
theorem Invariant.takeLast_abstract (hi : t.Invariant) (r : Nat) :
    t.abstract.takeLast r = (t.takeTail r).bind fun p => (t.itemOf p.1).map fun it => (it, p.2.abstract) := by
  unfold Model.takeLast
  rw [getElem?_shards_abstract]
  cases htail : t.takeTail r with
  | none =>
    cases hsh : t.shards[r]? with
    | none => rfl
    | some sh =>
      -- a list with a slot would have given its tail
      have hnil : sh.recent = [] := by
        by_contra hne
        exact hi.linked.takeTail_ne_none hi.placed hsh hne htail
      simp [modelShard, hnil]
  | some p =>
    obtain ⟨v, t'⟩ := p
    obtain ⟨sh, hsh, hlast, -⟩ := hi.linked.takeTail hi.placed htail
    have hv : v ∈ t.listed := mem_listed.2 ⟨r, sh, hsh, List.mem_of_getLast? hlast⟩
    obtain ⟨ev, hev, hitemv⟩ := hi.itemOf_listed hv
    have hitems := filterMap_eq_of_getLast? hlast hitemv
    rw [takeTail_eq_cut htail]
    simp only [Option.map_some, Option.bind_some, hitemv]
    have habs : (t.cutLinks v.toUInt32).abstract = t.abstract :=
      abstract_congr (shards_cutLinks t _) (spare_cutLinks t _) rfl fun y _ => by
        rw [itemOf_congr (slots_cutLinks t _)]
    rw [abstract_modifyShard _ r _ (fun sh => { sh with items := sh.items.dropLast }) fun sh' hsh' => ?_, habs]
    · simp [hsh, modelShard, hitems]
    rw [shards_cutLinks, hsh] at hsh'
    cases hsh'
    simp [modelShard, itemOf_congr (slots_cutLinks t _), hitems]

/-- The slot taken off the tail of a list holds an entry. -/
theorem Invariant.itemOf_takeTail (hi : t.Invariant) {r v : Nat} {t' : Table κ ν}
    (h : t.takeTail r = some (v, t')) : ∃ e, t.entry? v = some e ∧ t.itemOf v = some ⟨e.key, e.value, v⟩ := by
  obtain ⟨sh, hsh, hlast, -⟩ := hi.linked.takeTail hi.placed h
  exact hi.itemOf_listed (mem_listed.2 ⟨r, sh, hsh, List.mem_of_getLast? hlast⟩)

/-- A pass over the index meets the entries of the view, in some order. -/
theorem Invariant.listing_perm (hi : t.Invariant) : t.listing.Perm t.abstract.entries := by
  have h : t.abstract.entries = (t.listed.filterMap t.itemOf).map fun it => (it.key, it.value) := by
    rw [← flatMap_items_abstract, List.map_flatMap]
    rfl
  rw [h, List.map_filterMap]
  refine (hi.listed.filterMap _).symm.trans (List.Perm.of_eq (List.filterMap_congr fun y _ => ?_))
  simp only [itemOf, Option.map_map]
  rfl

/-- A pass over the values changes every value in the view. -/
theorem Invariant.mapValues_abstract (hi : t.Invariant) (f : ν → ν) :
    (t.mapValues f).abstract = t.abstract.mapValues f := by
  obtain ⟨hshards, hspare, hcounters⟩ := mapValues_frame t f
  rw [abstract_of_items (fun it => some { it with value := f it.value }) hshards hspare hcounters]
  · simp only [List.filterMap_eq_map']
    rfl
  intro y hy
  obtain ⟨e, he, hitem⟩ := hi.itemOf_listed hy
  show (Table.entry? (t.mapValues f) y).map _ = _
  rw [entry?_mapValues t f hi.indexed_nodup, if_pos (hi.listed.mem_iff.1 hy), he, hitem]
  rfl

variable [DecidableEq κ]

/-- The view finds a key where the table does, with its value and slot. -/
theorem Invariant.find?_abstract (hi : t.Invariant) (k : κ) :
    t.abstract.find? k = (t.find? k).bind fun p => t.itemOf p.2.2 := by
  have hfind : t.abstract.find? k = (t.listed.filterMap t.itemOf).find? fun it => decide (it.key = k) := by
    rw [← flatMap_items_abstract, List.find?_flatMap]
    rfl
  rw [hfind]
  cases hf : t.find? k with
  | none =>
    rw [Option.bind_none, List.find?_eq_none]
    intro it hit hkey
    obtain ⟨y, hy, hyit⟩ := List.mem_filterMap.1 hit
    obtain ⟨e, he, hitem⟩ := hi.itemOf_listed hy
    rw [hitem] at hyit
    cases hyit
    exact hi.find?_eq_none hf y e he (by simpa using hkey)
  | some p =>
    obtain ⟨start, depth, slot⟩ := p
    obtain ⟨-, hget, e, he, -, hk⟩ := find?_eq_some hf
    have hslot : slot ∈ t.listed := hi.listed.mem_iff.2 (Index.mem_slots.2 ⟨_, hget⟩)
    have hitem : t.itemOf slot = some ⟨e.key, e.value, slot⟩ := by simp [itemOf, he]
    rw [Option.bind_some, hitem]
    apply find?_eq_some_of_unique (List.mem_filterMap.2 ⟨slot, hslot, hitem⟩) (by simp [hk])
    -- one key has one entry
    intro it hit hkey
    obtain ⟨y, hy, hyit⟩ := List.mem_filterMap.1 hit
    obtain ⟨ey, hey, hitemy⟩ := hi.itemOf_listed hy
    rw [hitemy] at hyit
    cases hyit
    have hys : y = slot := hi.key_inj y slot ey e hey he (by rw [hk]; simpa using hkey)
    subst hys
    rw [he] at hey
    cases hey
    rfl

theorem Invariant.find?_abstract_of_entry (hi : t.Invariant) {slot : Nat} {e : Entry κ ν}
    (he : t.entry? slot = some e) : t.abstract.find? e.key = some ⟨e.key, e.value, slot⟩ := by
  obtain ⟨p, -, hfind⟩ := hi.find?_of_entry he
  rw [hi.find?_abstract, hfind]
  simp [itemOf, he]

/-- Overwriting the value of an entry overwrites it in the view. -/
theorem Invariant.setValue_abstract (hi : t.Invariant) {slot : Nat} {e : Entry κ ν}
    (he : t.entry? slot = some e) (v : ν) : (t.setValue slot v).abstract = t.abstract.setValue e.key v := by
  have hs : slot < t.slots.size := lt_size_of_entry he
  have hset : t.setValue slot v = t.writeSlot slot (some { e with value := v }) := by simp [setValue, he]
  have hshards : (t.setValue slot v).shards = t.shards := by rw [hset]; rfl
  rw [abstract_of_items (fun it => some (if it.key = e.key then { it with value := v } else it))
    hshards (by rw [hset]; rfl) (by rw [hset]; rfl)]
  · simp only [List.filterMap_eq_map']
    rfl
  -- the item changes at `slot` only, and no other item has the key
  intro y hy
  obtain ⟨ey, hey, hitem⟩ := hi.itemOf_listed hy
  rw [hitem, hset]
  show (Table.entry? (t.writeSlot slot _) y).map _ = _
  rw [entry?_writeSlot _ hs]
  by_cases hys : y = slot
  · subst hys
    rw [he] at hey
    cases hey
    simp
  · have hne : ey.key ≠ e.key := fun hk => hys (hi.key_inj y slot ey e hey he hk)
    simp [hys, hey, hne]

/-- Taking an entry out of the arena takes its item out of the view. -/
theorem Invariant.unindex_abstract (hi : t.Invariant) {slot : Nat} {e : Entry κ ν}
    (he : t.entry? slot = some e) (start depth : Nat) :
    (t.unindex slot start depth).abstract = t.abstract.erase e.key := by
  have hs : slot < t.slots.size := lt_size_of_entry he
  have hshards : (t.unindex slot start depth).shards = t.shards := rfl
  rw [abstract_of_items (Option.guard fun it => decide (it.key ≠ e.key)) hshards rfl rfl]
  · simp only [List.filterMap_eq_filter]
    rfl
  intro y hy
  obtain ⟨ey, hey, hitem⟩ := hi.itemOf_listed hy
  rw [hitem]
  show (Table.entry? (t.writeSlot slot none) y).map _ = _
  rw [entry?_writeSlot _ hs]
  by_cases hys : y = slot
  · subst hys
    rw [he] at hey
    cases hey
    simp [Option.guard]
  · have hne : ey.key ≠ e.key := fun hk => hys (hi.key_inj y slot ey e hey he hk)
    simp [hys, hey, hne, Option.guard]

/-- Taking an entry's slot off its list takes its item off the view. -/
theorem Invariant.unlinkSlot_abstract (hi : t.Invariant) {slot : Nat} {e : Entry κ ν}
    (he : t.entry? slot = some e) : (t.unlinkSlot slot).abstract = t.abstract.erase e.key := by
  show (⟨(t.shards.map (·.unlink slot)).map t.modelShard, t.spare, t.counters⟩ : Model κ ν) =
    ⟨(t.shards.map t.modelShard).map fun sh => { sh with items := sh.items.filter (·.key ≠ e.key) },
      t.spare, t.counters⟩
  congr 1
  rw [Array.map_map, Array.map_map]
  apply Array.map_congr_left
  intro sh hsh
  obtain ⟨r, hr⟩ := Array.mem_iff_getElem?.1 hsh
  simp only [Function.comp_apply, modelShard, Shard.recent_unlink, Shard.free_unlink, Shard.quota_unlink,
    ModelShard.mk.injEq, and_true]
  rw [(hi.recent_nodup hr).erase_eq_filter, List.filterMap_filter, List.filter_filterMap]
  apply List.filterMap_congr
  intro y hy
  obtain ⟨ey, hey, hitem⟩ := hi.itemOf_listed (mem_listed.2 ⟨r, sh, hr, hy⟩)
  by_cases hys : y = slot
  · subst hys
    rw [he] at hey
    cases hey
    simp [hitem, Option.filter]
  · have hne : ey.key ≠ e.key := fun hk => hys (hi.key_inj y slot ey e hey he hk)
    simp [hys, hitem, hne, Option.filter]

/-- Moving an entry to the front of shard `s`'s list moves its item there in
the view, or leaves both alone when it is first there already. -/
theorem Invariant.promote_abstract (hi : t.Invariant) {slot : Nat} {e : Entry κ ν}
    (he : t.entry? slot = some e) {s : Nat} (hs : s < t.config.shards) :
    (t.promote s slot).abstract = t.abstract.promote s e.key := by
  have hx := hi.listed_of_entry he
  have hitem : t.itemOf slot = some ⟨e.key, e.value, slot⟩ := by simp [itemOf, he]
  -- the slot is first on the list exactly when its key is first in the view
  have hfirst : (t.shards[s]?.map (·.isFirst slot)).getD false = true ↔
      (t.abstract.shards[s]?.bind (·.items.head?)).map (·.key) = some e.key := by
    rw [getElem?_shards_abstract]
    cases hsh : t.shards[s]? with
    | none => simp
    | some sh =>
      cases hrec : sh.recent with
      | nil => simp [modelShard, hrec, Shard.isFirst]
      | cons y rest =>
        have hy : y ∈ t.listed := mem_listed.2 ⟨s, sh, hsh, by rw [hrec]; exact List.mem_cons_self⟩
        obtain ⟨ey, hey, hitemy⟩ := hi.itemOf_listed hy
        simp only [Option.map_some, Option.getD_some, Shard.isFirst, hrec, List.head?_cons, Option.bind_some,
          modelShard, List.filterMap_cons, hitemy, Option.some.injEq]
        constructor
        · intro h
          have hys : y = slot := by simpa using h
          subst hys
          rw [he] at hey
          cases hey
          rfl
        · intro h
          simp [hi.key_inj y slot ey e hey he h]
  have hpred := hi.linked.pred_eq_head_iff hi.placed hs hx
  unfold promote Model.promote
  by_cases h : (t.shards[s]?.map (·.isFirst slot)).getD false = true
  · rw [if_pos (hpred.2 h)]
    simp only [if_pos (hfirst.1 h)]
    rfl
  · rw [if_neg (mt hpred.1 h), if_pos ((hi.linked.isLinked_iff hi.placed (hi.placed.lt_of_listed hx)).2 hx)]
    simp only [if_neg (mt hfirst.2 h), hi.find?_abstract_of_entry he]
    have hitem' : (t.unlinkSlot slot).itemOf slot = some ⟨e.key, e.value, slot⟩ := hitem
    rw [abstract_record, abstract_linkHead _ s slot hitem', hi.unlinkSlot_abstract he]


/-- Evicting a slot taken off its list counts an eviction and releases the
slot, as the abstract table does. -/
theorem Invariant.evict_abstract {order : List Nat} (hi : t.Invariant) (ha : t.index.Arranged t.homeOf order)
    {t₁ : Table κ ν} {v : Nat} (h : Unlisted t t₁ v) (s : Nat) :
    (t₁.evict s v).abstract = (t₁.abstract.record .eviction).release s v := by
  obtain ⟨p, -, hevict⟩ := evict_eq hi ha h s
  -- the slot is on no list any more
  have hv : v ∉ t₁.listed :=
    (List.nodup_cons.1 (h.listed.nodup_iff.1 (hi.listed.nodup_iff.2 hi.indexed_nodup))).1
  rw [hevict, abstract_release, abstract_record, unindex_abstract_of_unlisted hv]
  exact h.linked.freeLen s

/-- A reclaim takes the slot the abstract table takes: a spare slot, else the
last item of the shard, else the last item of the first other shard after it
that has one. -/
theorem Invariant.reclaim_abstract {order : List Nat} (hi : t.Invariant) (ha : t.index.Arranged t.homeOf order)
    (s : Nat) : (t.reclaim s).abstract = t.abstract.reclaim s := by
  have hsize : t.abstract.shards.size = t.config.shards := by
    rw [shards_abstract, Array.size_map, hi.shards_size]
  unfold reclaim Model.reclaim
  rw [spare_abstract]
  cases hspare : t.spare with
  | cons slot rest =>
    show (({ t with spare := rest } : Table κ ν).release s slot).abstract.record .foreignReclaim = _
    rw [abstract_release]
    · rfl
    · exact hi.linked.freeLen s
  | nil =>
    simp only [hi.takeLast_abstract, hsize]
    cases htail : t.takeTail s with
    | some p =>
      obtain ⟨v, t'⟩ := p
      obtain ⟨ev, -, hitemv⟩ := hi.itemOf_takeTail htail
      simp only [Option.bind_some, hitemv, Option.map_some]
      exact hi.evict_abstract ha (unlisted_takeTail hi.linked hi.placed htail) s
    | none =>
      simp only [Option.bind_none]
      rw [findSome?_bind fun o _ p hp => by
        obtain ⟨v, t'⟩ := p
        obtain ⟨ev, -, hitemv⟩ := hi.itemOf_takeTail hp
        simp [hitemv]]
      have hforeign : (List.range' 1 (t.config.shards - 1)).findSome?
          (fun offset => t.takeTail ((s + offset) % t.config.shards)) = t.takeForeignTail s := rfl
      rw [hforeign]
      cases hforeign : t.takeForeignTail s with
      | some p =>
        obtain ⟨v, t'⟩ := p
        obtain ⟨r, -, hr⟩ := List.exists_of_findSome?_eq_some hforeign
        obtain ⟨ev, -, hitemv⟩ := hi.itemOf_takeTail hr
        simp only [Option.bind_some, hitemv, Option.map_some]
        exact hi.evict_abstract ha ((unlisted_takeTail hi.linked hi.placed hr).record .foreignReclaim) s
      | none => rfl


end Table

end ShardCache
