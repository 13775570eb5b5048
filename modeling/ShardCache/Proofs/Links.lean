import ShardCache.Proofs.Pool
import ShardCache.Proofs.RelinkLists
/-!
# The link arena and the lists it forms

The operations of a table read link words and the free-list registers, and
keep each shard's `recent` and `free` lists in step with them. `Table.Linked`
states that they agree:

* `formed`: the pairs of the arena form the shards' recency lists in the
  sense of `Relink.Formed`, shard `s`'s list running from its head sentinel
  through the slots of its `recent` to its tail sentinel;
* `free`: each shard's free list is a `FreeChain` from its `freeHead` register
  along successor words, every slot on it with a predecessor word that marks
  the end, and `freeLen` counts it;
* `spare`: every slot of the spare pool is detached;
* `size`: the arena has a pair for every data slot and every sentinel.

The statements rest on `Table.Placed`: every data slot is in one place, and
every id fits a 32-bit word below the reserved words.

Each change an operation makes to the arena is one of the changes of
`ShardCache.Relink`: `cutLinks` is `cutOut`, `linkHead` is `spliceIn`, and the
writes of a free or detached pair are `setLink` of a slot outside the lists
(`linkOf_cutLinks`, `linkOf_linkHead`, `linkOf_setLinks`). So the lemmas of
`Relink.Formed` carry the lists through every operation.
-/
namespace ShardCache

namespace Config

/-- A number at most `slotIdLimit` is kept by the cast to a 32-bit word. -/
theorem toNat_toUInt32_of_le {n : Nat} (h : n ≤ slotIdLimit) : n.toUInt32.toNat = n := by
  have hsize : UInt32.size = 4294967296 := rfl
  rw [Nat.toUInt32_eq, UInt32.toNat_ofNat_of_lt' (by unfold slotIdLimit at h; omega)]

theorem toUInt32_inj_of_le {a b : Nat} (ha : a ≤ slotIdLimit) (hb : b ≤ slotIdLimit)
    (h : a.toUInt32 = b.toUInt32) : a = b := by
  rw [← toNat_toUInt32_of_le ha, ← toNat_toUInt32_of_le hb, h]

variable {c : Config} {s : Nat}

/-- A shard's sentinels are `capacity + 2·s` and the id after it, when all ids fit: neither
the cast nor the increment wraps. -/
theorem toNat_ends_of_le (hle : c.capacity + 2 * c.shards ≤ slotIdLimit) (hs : s < c.shards) :
    (c.ends s).head.toNat = c.capacity + 2 * s ∧
      (c.ends s).tail.toNat = c.capacity + 2 * s + 1 := by
  have hhead := toNat_toUInt32_of_le (n := c.capacity + 2 * s) (by omega)
  refine ⟨hhead, ?_⟩
  simp only [ends, UInt32.toNat_add, hhead, UInt32.toNat_one]
  unfold slotIdLimit at hle
  exact Nat.mod_eq_of_lt (by omega)

/-- A data slot is no sentinel. -/
theorem toUInt32_ne_ends (hle : c.capacity + 2 * c.shards ≤ slotIdLimit) (hs : s < c.shards)
    {x : Nat} (hx : x < c.capacity) : x.toUInt32 ≠ (c.ends s).head ∧ x.toUInt32 ≠ (c.ends s).tail := by
  obtain ⟨hh, ht⟩ := toNat_ends_of_le hle hs
  have hxn := toNat_toUInt32_of_le (n := x) (by omega)
  constructor <;> intro e <;> have := congrArg UInt32.toNat e <;> omega

/-- Two shards have the same sentinels only if they are one shard. -/
theorem ends_injective (hle : c.capacity + 2 * c.shards ≤ slotIdLimit) {r : Nat} (hr : r < c.shards)
    (hs : s < c.shards) (h : c.ends r = c.ends s) : r = s := by
  have h1 := (toNat_ends_of_le hle hr).1
  have h2 := (toNat_ends_of_le hle hs).1
  rw [h] at h1
  omega

/-- No id of a slot or a sentinel is a reserved word. -/
theorem toNat_lt_listEnd {w : UInt32} (hw : w.toNat ≤ slotIdLimit) : w ≠ listEnd ∧ w ≠ locked := by
  have hend : listEnd.toNat = 0xFFFFFFFE := rfl
  have hlocked : locked.toNat = 0xFFFFFFFF := rfl
  unfold slotIdLimit at hw
  constructor <;> intro e <;> subst e <;> omega

end Config

/-- Erasing a slot and casting the slots to words commute, for slots that fit a word. -/
theorem map_toUInt32_erase {l : List Nat} {a : Nat} (hl : ∀ x ∈ l, x ≤ slotIdLimit)
    (ha : a ≤ slotIdLimit) : (l.erase a).map Nat.toUInt32 = (l.map Nat.toUInt32).erase a.toUInt32 := by
  induction l with
  | nil => rfl
  | cons x rest ih =>
    by_cases hx : x = a
    · subst hx
      simp
    · have hne : x.toUInt32 ≠ a.toUInt32 := fun e =>
        hx (Config.toUInt32_inj_of_le (hl x List.mem_cons_self) ha e)
      rw [List.erase_cons_tail (by simpa using hx), List.map_cons, List.map_cons,
        List.erase_cons_tail (by simpa using hne), ih fun y hy => hl y (List.mem_cons_of_mem _ hy)]


namespace Table

variable {κ ν : Type}

open Relink

/-! ## Writing link pairs -/

section Writes

variable {t : Table κ ν}

@[simp] theorem size_links_setLinks (y : UInt32) (w : Link) :
    (t.setLinks y w).links.size = t.links.size := Array.size_setIfInBounds

/-- A write inside the arena changes the pair of that id and no other. -/
theorem linkOf_setLinks {y : UInt32} (w : Link) (hy : y.toNat < t.links.size) :
    (t.setLinks y w).linkOf = setLink t.linkOf y w := by
  funext z
  simp only [linkOf, setLinks, setLink, Array.getElem?_setIfInBounds]
  by_cases hz : z = y
  · subst hz
    simp [hy]
  · have hne : y.toNat ≠ z.toNat := fun h => hz (UInt32.toNat_inj.1 h.symm)
    simp [hz, hne]

@[simp] theorem size_links_cutLinks (y : UInt32) : (t.cutLinks y).links.size = t.links.size := by
  simp [cutLinks]

/-- `cutLinks` is `cutOut` for a slot whose neighbours are two other ids of the arena. -/
theorem linkOf_cutLinks {y : UInt32} (hL : (t.linkOf y).pred ≠ y) (hR : (t.linkOf y).succ ≠ y)
    (hLR : (t.linkOf y).pred ≠ (t.linkOf y).succ) (hy : y.toNat < t.links.size)
    (hbL : (t.linkOf y).pred.toNat < t.links.size) (hbR : (t.linkOf y).succ.toNat < t.links.size) :
    (t.cutLinks y).linkOf = cutOut t.linkOf y := by
  simp only [cutLinks]
  rw [linkOf_setLinks _ (by simpa using hy), linkOf_setLinks _ (by simpa using hbR),
    linkOf_setLinks _ hbL, setLink_of_ne _ _ (Ne.symm hLR)]
  funext z
  simp only [setLink, cutOut]
  by_cases hzy : z = y
  · simp only [hzy, if_true]
  by_cases hzR : z = (t.linkOf y).succ
  · subst hzR
    simp only [hR, Ne.symm hLR, if_true, if_false]
  by_cases hzL : z = (t.linkOf y).pred
  · subst hzL
    simp only [hL, hLR, if_true, if_false]
  · simp only [hzy, hzR, hzL, if_false]

/-- `linkHead` is `spliceIn` after the head sentinel, for a slot that is neither the head
sentinel nor the slot after it, when the head and that slot are two ids of the arena. -/
theorem linkOf_linkHead {s slot : Nat} (hxh : slot.toUInt32 ≠ (t.ends s).head)
    (hfx : (t.linkOf (t.ends s).head).succ ≠ slot.toUInt32)
    (hfh : (t.linkOf (t.ends s).head).succ ≠ (t.ends s).head) (hx : slot.toUInt32.toNat < t.links.size)
    (hh : (t.ends s).head.toNat < t.links.size)
    (hf : (t.linkOf (t.ends s).head).succ.toNat < t.links.size) :
    (t.linkHead s slot).linkOf = spliceIn t.linkOf (t.ends s).head slot.toUInt32 := by
  simp only [linkHead, linkOf_modifyShard]
  rw [linkOf_setLinks _ (by simpa using hf), linkOf_setLinks _ (by simpa using hh),
    linkOf_setLinks _ hx, setLink_of_ne _ _ (Ne.symm hxh), setLink_of_ne _ _ hfh,
    setLink_of_ne _ _ hfx]
  funext z
  simp only [setLink, spliceIn]
  by_cases hzx : z = slot.toUInt32
  · subst hzx
    simp only [Ne.symm hfx, hxh, if_true, if_false]
  by_cases hzh : z = (t.ends s).head
  · subst hzh
    simp only [Ne.symm hfh, Ne.symm hxh, if_true, if_false]
  by_cases hzf : z = (t.linkOf (t.ends s).head).succ
  · subst hzf
    simp only [hfx, hfh, if_true, if_false]
  · simp only [hzx, hzh, hzf, if_false]

end Writes

/-! ## The invariant -/

/-- The sentinels of the shards' recency lists, shard by shard. -/
def lists (t : Table κ ν) : List Ends := (List.range t.config.shards).map t.ends

/-- The slots outside the recency lists: those of the free lists, shard by shard, and those
of the spare pool. -/
def owned (t : Table κ ν) : List Nat := t.shards.toList.flatMap (·.free) ++ t.spare

/-- A free list as the arena threads it: from the word `head` along successor words, each
slot on it with a predecessor word that marks the end, down to `listEnd`.
mirrors src/src/ds/intrusive_list.rs:122-139 -/
inductive FreeChain (link : UInt32 → Link) : UInt32 → List Nat → Prop
  | nil : FreeChain link listEnd []
  | cons {x : Nat} {rest : List Nat} : (link x.toUInt32).pred = listEnd →
      FreeChain link (link x.toUInt32).succ rest → FreeChain link x.toUInt32 (x :: rest)

/-- Every data slot on a list, a free list or the spare pool is there once and is a data
slot, and every id of a slot or a sentinel fits a word below the reserved ones. -/
structure Placed (t : Table κ ν) : Prop where
  limit : t.config.capacity + 2 * t.config.shards ≤ slotIdLimit
  shards_size : t.shards.size = t.config.shards
  nodup : t.pool.Nodup
  lt : ∀ x ∈ t.pool, x < t.config.capacity

/-- The link words and the free-list registers of `t` form its lists. -/
structure Linked (t : Table κ ν) : Prop where
  size : t.links.size = t.config.capacity + 2 * t.config.shards
  formed : ∃ seqs, Formed t.lists t.linkOf seqs ∧
    ∀ (s : Nat) (sh : Shard), t.shards[s]? = some sh → seqs (t.ends s) = sh.recent.map Nat.toUInt32
  free : ∀ (s : Nat) (sh : Shard), t.shards[s]? = some sh → FreeChain t.linkOf sh.freeHead sh.free
  freeLen : ∀ (s : Nat) (sh : Shard), t.shards[s]? = some sh → sh.freeLen = sh.free.length
  spare : ∀ x ∈ t.spare, t.linkOf x.toUInt32 = Link.detached

/-! ## Free chains -/

namespace FreeChain

variable {link link' : UInt32 → Link}

/-- A chain survives words it does not read. -/
theorem frame : ∀ {h : UInt32} {l : List Nat}, FreeChain link h l →
    (∀ x ∈ l, link' x.toUInt32 = link x.toUInt32) → FreeChain link' h l
  | _, _, .nil, _ => .nil
  | _, _, .cons hp hr, hw => by
    have hx := hw _ List.mem_cons_self
    refine .cons (by rw [hx]; exact hp) ?_
    rw [hx]
    exact hr.frame fun y hy => hw y (List.mem_cons_of_mem _ hy)

/-- The head register names the first slot, or marks the end. -/
theorem head_eq {h : UInt32} {l : List Nat} (hc : FreeChain link h l) :
    h = (l.head?.map Nat.toUInt32).getD listEnd := by
  cases hc <;> rfl

theorem cons_inv {h : UInt32} {x : Nat} {rest : List Nat} (hc : FreeChain link h (x :: rest)) :
    h = x.toUInt32 ∧ (link x.toUInt32).pred = listEnd ∧ FreeChain link (link x.toUInt32).succ rest := by
  cases hc with
  | cons hp hr => exact ⟨rfl, hp, hr⟩

/-- Every slot of a free list has a predecessor word that marks the end. -/
theorem pred_eq : ∀ {h : UInt32} {l : List Nat}, FreeChain link h l →
    ∀ x ∈ l, (link x.toUInt32).pred = listEnd
  | _, _, .nil, _, hx => absurd hx List.not_mem_nil
  | _, _, .cons hp hr, x, hx => by
    rcases List.mem_cons.1 hx with rfl | hx
    · exact hp
    · exact hr.pred_eq x hx

/-- A chain of slots that fit a word starts at a slot or at the end, never at `locked`. -/
theorem head_ne_locked {h : UInt32} {l : List Nat} (hc : FreeChain link h l)
    (hb : ∀ x ∈ l, x ≤ slotIdLimit) : h ≠ locked := by
  rw [hc.head_eq]
  cases l with
  | nil => exact Link.listEnd_ne_locked
  | cons y rest =>
    have hy := hb y List.mem_cons_self
    refine (Config.toNat_lt_listEnd ?_).2
    simp only [List.head?_cons, Option.map_some, Option.getD_some]
    rw [Config.toNat_toUInt32_of_le hy]
    exact hy

/-- No successor word along a chain of slots that fit a word reads `locked`. -/
theorem succ_ne_locked : ∀ {h : UInt32} {l : List Nat}, FreeChain link h l →
    (∀ x ∈ l, x ≤ slotIdLimit) → ∀ x ∈ l, (link x.toUInt32).succ ≠ locked
  | _, _, .nil, _, _, hx => absurd hx List.not_mem_nil
  | _, _, .cons _ hr, hb, x, hx => by
    have hb' : ∀ z, z ∈ _ → z ≤ slotIdLimit := fun z hz => hb z (List.mem_cons_of_mem _ hz)
    rcases List.mem_cons.1 hx with rfl | hx
    · exact hr.head_ne_locked hb'
    · exact hr.succ_ne_locked hb' x hx

end FreeChain

/-! ## Where the slots are -/

theorem mem_pool_iff {t : Table κ ν} {x : Nat} : x ∈ t.pool ↔ x ∈ t.listed ∨ x ∈ t.owned := by
  simp only [pool, listed, owned, List.mem_append, List.mem_flatMap]
  constructor
  · rintro (⟨sh, hsh, hx | hx⟩ | hx)
    · exact .inl ⟨sh, hsh, hx⟩
    · exact .inr (.inl ⟨sh, hsh, hx⟩)
    · exact .inr (.inr hx)
  · rintro (⟨sh, hsh, hx⟩ | ⟨sh, hsh, hx⟩ | hx)
    · exact .inl ⟨sh, hsh, .inl hx⟩
    · exact .inl ⟨sh, hsh, .inr hx⟩
    · exact .inr hx

/-- The pool holds the listed slots and the owned ones, as often as both together. -/
theorem pool_perm (t : Table κ ν) : t.pool.Perm (t.listed ++ t.owned) := by
  rw [List.perm_iff_count]
  intro a
  simp only [pool, listed, owned, List.count_append, List.count_flatMap, Function.comp_def,
    List.sum_map_add]
  omega

theorem mem_owned_of_free {t : Table κ ν} {s x : Nat} {sh : Shard} (hs : t.shards[s]? = some sh)
    (hx : x ∈ sh.free) : x ∈ t.owned := by
  obtain ⟨hlt, hget⟩ := toList_getElem hs
  exact List.mem_append_left _ (List.mem_flatMap.2 ⟨sh, hget ▸ List.getElem_mem hlt, hx⟩)

theorem mem_owned_of_spare {t : Table κ ν} {x : Nat} (hx : x ∈ t.spare) : x ∈ t.owned :=
  List.mem_append_right _ hx

/-- Changing one shard takes its old free list out of the owned slots and puts its new one
in. -/
theorem owned_modifyShard {t : Table κ ν} {s : Nat} {sh : Shard} (f : Shard → Shard)
    (hs : t.shards[s]? = some sh) :
    ((t.modifyShard s f).owned ++ sh.free).Perm (t.owned ++ (f sh).free) := by
  obtain ⟨hlt, hget⟩ := toList_getElem hs
  have h := flatMap_modify_perm (·.free) f hlt
  rw [hget] at h
  unfold owned
  rw [shards_modifyShard, Array.toList_modify, spare_modifyShard]
  rw [List.perm_iff_count] at h ⊢
  intro b
  have := h b
  simp only [List.count_append] at this ⊢
  omega

namespace Placed

variable {t : Table κ ν} (hp : t.Placed)
include hp

theorem le_limit {x : Nat} (hx : x ∈ t.pool) : x ≤ slotIdLimit := by
  have := hp.lt x hx
  have := hp.limit
  omega

theorem listed_owned_nodup : (t.listed ++ t.owned).Nodup := (pool_perm t).nodup_iff.1 hp.nodup

theorem owned_nodup : t.owned.Nodup := (List.nodup_append.1 hp.listed_owned_nodup).2.1

/-- A slot outside the lists is on no list. -/
theorem not_listed_of_owned {x : Nat} (hx : x ∈ t.owned) : x ∉ t.listed := fun hl =>
  (List.nodup_append.1 hp.listed_owned_nodup).2.2 x hl x hx rfl

theorem lt_of_listed {x : Nat} (hx : x ∈ t.listed) : x < t.config.capacity :=
  hp.lt x (mem_pool_iff.2 (.inl hx))

theorem lt_of_owned {x : Nat} (hx : x ∈ t.owned) : x < t.config.capacity :=
  hp.lt x (mem_pool_iff.2 (.inr hx))

/-- Every shard of the geometry is there. -/
theorem exists_shard {s : Nat} (hs : s < t.config.shards) : ∃ sh, t.shards[s]? = some sh :=
  ⟨_, Array.getElem?_eq_getElem (by rw [hp.shards_size]; exact hs)⟩

end Placed

/-- Placing fewer slots, in the same geometry, keeps them placed. -/
theorem Placed.of_subperm {t t' : Table κ ν} (hp : t.Placed) (hc : t'.config = t.config)
    (hs : t'.shards.size = t.shards.size) (h : t'.pool.Subperm t.pool) : t'.Placed where
  limit := hc ▸ hp.limit
  shards_size := by rw [hs, hc]; exact hp.shards_size
  nodup := by
    obtain ⟨l, hperm, hsub⟩ := h
    exact hperm.nodup_iff.1 (hsub.nodup hp.nodup)
  lt x hx := hc ▸ hp.lt x (h.subset hx)

/-! ## The nodes of the lists -/

section Nodes

variable {t : Table κ ν} {seqs : Ends → List UInt32}

theorem mem_lists {e : Ends} : e ∈ t.lists ↔ ∃ s < t.config.shards, t.ends s = e := by
  simp [lists]

/-- The nodes of the lists are the sentinels and the listed slots. -/
theorem mem_nodes_iff (hsz : t.shards.size = t.config.shards)
    (hseq : ∀ (s : Nat) (sh : Shard), t.shards[s]? = some sh → seqs (t.ends s) = sh.recent.map Nat.toUInt32)
    {y : UInt32} : y ∈ nodes t.lists seqs ↔
      (∃ s < t.config.shards, y = (t.ends s).head ∨ y = (t.ends s).tail) ∨
        ∃ x ∈ t.listed, y = x.toUInt32 := by
  rw [mem_nodes]
  constructor
  · rintro ⟨e, he, hy⟩
    obtain ⟨s, hs, rfl⟩ := mem_lists.1 he
    have hsh : t.shards[s]? = some t.shards[s] := Array.getElem?_eq_getElem (by omega)
    rw [chain_eq, hseq s _ hsh] at hy
    simp only [List.cons_append, List.mem_cons, List.mem_append, List.mem_map, List.not_mem_nil,
      or_false] at hy
    rcases hy with rfl | ⟨x, hx, rfl⟩ | rfl
    · exact .inl ⟨s, hs, .inl rfl⟩
    · exact .inr ⟨x, mem_listed.2 ⟨s, _, hsh, hx⟩, rfl⟩
    · exact .inl ⟨s, hs, .inr rfl⟩
  · rintro (⟨s, hs, rfl | rfl⟩ | ⟨x, hx, rfl⟩)
    · exact ⟨t.ends s, mem_lists.2 ⟨s, hs, rfl⟩, by simp [chain_eq]⟩
    · exact ⟨t.ends s, mem_lists.2 ⟨s, hs, rfl⟩, by simp [chain_eq]⟩
    · obtain ⟨s, sh, hsh, hxs⟩ := mem_listed.1 hx
      have hs : s < t.config.shards := hsz ▸ (Array.getElem?_eq_some_iff.1 hsh).1
      refine ⟨t.ends s, mem_lists.2 ⟨s, hs, rfl⟩, ?_⟩
      rw [chain_eq, hseq s sh hsh]
      exact List.mem_append_left _ (List.mem_cons_of_mem _ (List.mem_map_of_mem hxs))

/-- A data slot off the lists is no node of them. -/
theorem toUInt32_not_mem_nodes (hp : t.Placed)
    (hseq : ∀ (s : Nat) (sh : Shard), t.shards[s]? = some sh → seqs (t.ends s) = sh.recent.map Nat.toUInt32)
    {x : Nat} (hx : x < t.config.capacity) (hnl : x ∉ t.listed) :
    x.toUInt32 ∉ nodes t.lists seqs := by
  rw [mem_nodes_iff hp.shards_size hseq]
  rintro (⟨s, hs, he | he⟩ | ⟨z, hz, he⟩)
  · exact (Config.toUInt32_ne_ends hp.limit hs hx).1 he
  · exact (Config.toUInt32_ne_ends hp.limit hs hx).2 he
  · have hzx : x = z := Config.toUInt32_inj_of_le (by have := hp.limit; omega)
      (by have := hp.lt_of_listed hz; have := hp.limit; omega) he
    exact hnl (hzx ▸ hz)

/-- Every node of the lists is an id of the arena. -/
theorem toNat_lt_of_mem_nodes (hp : t.Placed) (hsize : t.links.size = t.config.capacity + 2 * t.config.shards)
    (hseq : ∀ (s : Nat) (sh : Shard), t.shards[s]? = some sh → seqs (t.ends s) = sh.recent.map Nat.toUInt32)
    {y : UInt32} (hy : y ∈ nodes t.lists seqs) : y.toNat < t.links.size := by
  rw [mem_nodes_iff hp.shards_size hseq] at hy
  rw [hsize]
  rcases hy with ⟨s, hs, rfl | rfl⟩ | ⟨x, hx, rfl⟩
  · have := (Config.toNat_ends_of_le hp.limit hs).1
    unfold ends
    omega
  · have := (Config.toNat_ends_of_le hp.limit hs).2
    unfold ends
    omega
  · have := hp.lt_of_listed hx
    rw [Config.toNat_toUInt32_of_le (by have := hp.limit; omega)]
    omega

theorem ends_congr {t' : Table κ ν} (hc : t'.config = t.config) (s : Nat) : t'.ends s = t.ends s := by
  simp only [ends, hc]

theorem lists_congr {t' : Table κ ν} (hc : t'.config = t.config) : t'.lists = t.lists := by
  rw [lists, lists, hc]
  exact List.map_congr_left fun s _ => ends_congr hc s

/-- A shard of the array is one of the lists. -/
theorem ends_mem_lists (hsz : t.shards.size = t.config.shards) {s : Nat} {sh : Shard}
    (hs : t.shards[s]? = some sh) : t.ends s ∈ t.lists :=
  mem_lists.2 ⟨s, hsz ▸ (Array.getElem?_eq_some_iff.1 hs).1, rfl⟩

end Nodes

/-! ## What the arena says of the lists -/

section Agree

variable {t : Table κ ν} (hl : t.Linked) (hp : t.Placed)
include hl hp

/-- A data slot whose pair marks no end is on a recency list. -/
theorem Linked.listed_of_isLinked {slot : Nat} (hx : slot < t.config.capacity)
    (h : t.isLinked slot = true) : slot ∈ t.listed := by
  obtain ⟨seqs, hf, hseq⟩ := hl.formed
  have hin : (t.linkOf slot.toUInt32).touchesEnd = false := by simpa [isLinked] using h
  by_contra hnl
  exact toUInt32_not_mem_nodes hp hseq hx hnl (hf.mem_of_inner hin)

/-- A data slot's pair marks no end exactly when the slot is on a recency list. -/
theorem Linked.isLinked_iff {slot : Nat} (hx : slot < t.config.capacity) :
    t.isLinked slot = true ↔ slot ∈ t.listed := by
  refine ⟨hl.listed_of_isLinked hp hx, fun h => ?_⟩
  obtain ⟨seqs, hf, hseq⟩ := hl.formed
  obtain ⟨s, sh, hsh, hm⟩ := mem_listed.1 h
  have hin := hf.touchesEnd_of_mem (ends_mem_lists hp.shards_size hsh)
    (by rw [hseq s sh hsh]; exact List.mem_map_of_mem hm)
  simp [isLinked, hin]

/-- A free head names the top free slot or marks the end: it never reads `locked`. -/
theorem Linked.freeHead_ne_locked {s : Nat} {sh : Shard} (hsh : t.shards[s]? = some sh) :
    sh.freeHead ≠ locked :=
  (hl.free s sh hsh).head_ne_locked fun _ hy =>
    hp.le_limit (mem_pool_iff.2 (.inr (mem_owned_of_free hsh hy)))

/-- A slot of a list follows shard `s`'s head sentinel exactly when it is first on shard
`s`'s list: the test of a promotion reads `isFirst` off the arena. -/
theorem Linked.pred_eq_head_iff {s slot : Nat} (hs : s < t.config.shards) (hx : slot ∈ t.listed) :
    (t.linkOf slot.toUInt32).pred = (t.ends s).head ↔
      (t.shards[s]?.map (·.isFirst slot)).getD false = true := by
  obtain ⟨seqs, hf, hseq⟩ := hl.formed
  obtain ⟨r, sh, hr, hslot⟩ := mem_listed.1 hx
  have hlim := hp.limit
  have her := ends_mem_lists hp.shards_size hr
  have hy : slot.toUInt32 ∈ seqs (t.ends r) := by
    rw [hseq r sh hr]
    exact List.mem_map_of_mem hslot
  by_cases hsr : s = r
  · subst hsr
    have hbound : ∀ z ∈ sh.recent, z ≤ slotIdLimit := fun z hz => by
      have := hp.lt_of_listed (mem_listed.2 ⟨s, sh, hr, hz⟩)
      omega
    rw [hf.pred_eq_head_iff her hy, hseq s sh hr, List.head?_map, hr]
    simp only [Option.map_some, Option.getD_some, Shard.isFirst, beq_iff_eq]
    cases hh : sh.recent.head? with
    | none => simp
    | some z =>
      simp only [Option.map_some, Option.some.injEq]
      exact ⟨fun h => Config.toUInt32_inj_of_le (hbound z (List.mem_of_head? hh))
        (hbound slot hslot) h, fun h => h ▸ rfl⟩
  · -- the slot is on shard `r`'s list: its predecessor is in `r`'s chain, and no slot of
    -- `r`'s list is first on another shard's
    have hr' : r < t.config.shards := hp.shards_size ▸ (Array.getElem?_eq_some_iff.1 hr).1
    constructor
    · intro h
      obtain ⟨a, b, hab⟩ := List.append_of_mem hy
      obtain ⟨P, Q, -, -, hc⟩ := hf.split her hab
      have hpred : (t.linkOf slot.toUInt32).pred ∈ (t.ends r).chain (seqs (t.ends r)) := by
        rw [hc]
        simp
      rw [h] at hpred
      exact absurd (Config.ends_injective hlim hs hr' (eq_of_mem_chain hf.nodup
        (mem_lists.2 ⟨s, hs, rfl⟩) her (by rw [chain_eq]; exact List.mem_cons_self) hpred)) hsr
    · intro h
      cases hs' : t.shards[s]? with
      | none => simp [hs'] at h
      | some sh' =>
        simp only [hs', Option.map_some, Option.getD_some, Shard.isFirst, beq_iff_eq] at h
        exact absurd (shard_unique hp.nodup hs' hr
          (List.mem_append_left _ (List.mem_of_head? h)) (List.mem_append_left _ hslot)) hsr

/-- The free head marks the end exactly when the free list is empty: popping fails only
then. -/
theorem Linked.takeFree_eq_none_iff {s : Nat} {sh : Shard} (hsh : t.shards[s]? = some sh) :
    t.takeFree s = none ↔ sh.free = [] := by
  have hhead := (hl.free s sh hsh).head_eq
  unfold Table.takeFree
  rw [hsh]
  cases hfr : sh.free with
  | nil =>
    rw [hfr] at hhead
    simp [hhead]
  | cons x rest =>
    have hx : x ∈ t.owned := mem_owned_of_free hsh (by rw [hfr]; exact List.mem_cons_self)
    have hxl := hp.le_limit (mem_pool_iff.2 (.inr hx))
    rw [hfr] at hhead
    simp only [List.head?_cons, Option.map_some, Option.getD_some] at hhead
    have hne := (Config.toNat_lt_listEnd (w := x.toUInt32)
      (by rw [Config.toNat_toUInt32_of_le hxl]; exact hxl)).1
    simp [hhead, hne]

/-- A shard whose list has a slot has a tail to give. -/
theorem Linked.takeTail_ne_none {r : Nat} {sh : Shard} (hr : t.shards[r]? = some sh)
    (hne : sh.recent ≠ []) : t.takeTail r ≠ none := by
  obtain ⟨seqs, hf, hseq⟩ := hl.formed
  have he := ends_mem_lists hp.shards_size hr
  have htail := hf.tail_pred he
  rw [hseq r sh hr] at htail
  obtain ⟨init, w, hw⟩ := (List.eq_nil_or_concat sh.recent).resolve_left hne
  rw [hw, List.concat_eq_append, List.map_append, List.getLast?_append_of_ne_nil _ (by simp)] at htail
  simp only [List.map_cons, List.map_nil, List.getLast?_singleton, Option.getD_some] at htail
  -- the last slot is no head sentinel: the chain names each node once
  have hnd := chain_nodup hf.nodup he
  rw [chain_eq, hseq r sh hr, hw, List.cons_append, List.nodup_cons] at hnd
  have hwh : w.toUInt32 ≠ (t.ends r).head := fun h => hnd.1 (by simp [← h])
  unfold Table.takeTail
  rw [hr]
  simp [htail, hwh]

end Agree

/-! ## Keeping the invariant -/

section Keep

variable {t t' : Table κ ν}

/-- A table whose pairs form the lists of its shards, and which keeps the free lists, their
registers, the spare pool and the words of the slots outside the lists of `t`, is linked. -/
theorem Linked.of_formed (hl : t.Linked) (hc : t'.config = t.config)
    (hsize : t'.links.size = t.links.size) {seqs : Ends → List UInt32}
    (hf : Formed t.lists t'.linkOf seqs)
    (hseq : ∀ (s : Nat) (sh : Shard), t'.shards[s]? = some sh →
      seqs (t.ends s) = sh.recent.map Nat.toUInt32)
    (hfree : ∀ (s : Nat) (sh' : Shard), t'.shards[s]? = some sh' → ∃ sh, t.shards[s]? = some sh ∧
      sh'.free = sh.free ∧ sh'.freeHead = sh.freeHead ∧ sh'.freeLen = sh.freeLen)
    (hspare : t'.spare = t.spare)
    (hw : ∀ x ∈ t.owned, t'.linkOf x.toUInt32 = t.linkOf x.toUInt32) : t'.Linked where
  size := by rw [hsize, hl.size, hc]
  formed := ⟨seqs, by rw [lists_congr hc]; exact hf, fun s sh hs => by
    rw [ends_congr hc]; exact hseq s sh hs⟩
  free s sh' hs := by
    obtain ⟨sh, hsh, hf1, hf2, -⟩ := hfree s sh' hs
    rw [hf1, hf2]
    exact (hl.free s sh hsh).frame fun x hx => hw x (mem_owned_of_free hsh hx)
  freeLen s sh' hs := by
    obtain ⟨sh, hsh, hf1, -, hf3⟩ := hfree s sh' hs
    rw [hf1, hf3]
    exact hl.freeLen s sh hsh
  spare x hx := by
    rw [hspare] at hx
    rw [hw x (mem_owned_of_spare hx)]
    exact hl.spare x hx

/-- Changing neither the arena nor the lists, the free-list registers or the spare pool
keeps the table linked. -/
theorem Linked.congr (hl : t.Linked) (hc : t'.config = t.config) (hlinks : t'.links = t.links)
    (hsh : ∀ (s : Nat) (sh' : Shard), t'.shards[s]? = some sh' → ∃ sh, t.shards[s]? = some sh ∧
      sh'.recent = sh.recent ∧ sh'.free = sh.free ∧ sh'.freeHead = sh.freeHead ∧
        sh'.freeLen = sh.freeLen)
    (hspare : t'.spare = t.spare) : t'.Linked := by
  have hlink : t'.linkOf = t.linkOf := by
    funext y
    simp only [linkOf, hlinks]
  obtain ⟨seqs, hf, hseq⟩ := hl.formed
  refine hl.of_formed hc (by rw [hlinks]) (hlink ▸ hf) (fun s sh' hs => ?_) (fun s sh' hs => ?_)
    hspare (fun x _ => by rw [hlink])
  · obtain ⟨sh, hsh, hr, -⟩ := hsh s sh' hs
    rw [hr]
    exact hseq s sh hsh
  · obtain ⟨sh, hsh, -, hrest⟩ := hsh s sh' hs
    exact ⟨sh, hsh, hrest⟩

/-- A table with the arena, the shards and the spare pool of a linked table is linked:
entries, the index and the counters play no part. -/
theorem Linked.of_shards_eq (hl : t.Linked) (hc : t'.config = t.config) (hlinks : t'.links = t.links)
    (hshards : t'.shards = t.shards) (hspare : t'.spare = t.spare) : t'.Linked :=
  hl.congr hc hlinks (fun _ sh' hs => ⟨sh', hshards ▸ hs, rfl, rfl, rfl, rfl⟩) hspare

theorem Linked.record (hl : t.Linked) (e : Event) : (t.record e).Linked :=
  hl.of_shards_eq rfl rfl rfl rfl

/-- Changing a shard's registers other than its lists and free head and count, such as its
probe run, keeps the table linked. -/
theorem Linked.of_modifyShard (hl : t.Linked) {s : Nat} {f : Shard → Shard}
    (hf : ∀ sh, (f sh).recent = sh.recent ∧ (f sh).free = sh.free ∧ (f sh).freeHead = sh.freeHead ∧
      (f sh).freeLen = sh.freeLen) : (t.modifyShard s f).Linked := by
  refine hl.congr rfl rfl (fun r sh' hr => ?_) rfl
  rw [getElem?_shards_modifyShard] at hr
  split at hr
  · obtain ⟨sh, hsh, rfl⟩ := Option.map_eq_some_iff.1 hr
    exact ⟨sh, hsh, hf sh⟩
  · exact ⟨sh', hr, rfl, rfl, rfl, rfl⟩

theorem linkOf_unlinkSlot (t : Table κ ν) (slot : Nat) :
    (t.unlinkSlot slot).linkOf = (t.cutLinks slot.toUInt32).linkOf := rfl

/-- Cutting a slot of a list out of it keeps the arena and the lists in step. -/
theorem Linked.unlinkSlot (hl : t.Linked) (hp : t.Placed) {slot : Nat}
    (hx : slot < t.config.capacity) (hlink : t.isLinked slot = true) : (t.unlinkSlot slot).Linked := by
  obtain ⟨seqs, hf, hseq⟩ := hl.formed
  have hin : (t.linkOf slot.toUInt32).touchesEnd = false := by simpa [isLinked] using hlink
  obtain ⟨-, -, hLn, hRn, hyn, hLy, hRy, hLR⟩ := hf.around hin
  have hcut : (t.unlinkSlot slot).linkOf = cutOut t.linkOf slot.toUInt32 := by
    rw [linkOf_unlinkSlot]
    exact linkOf_cutLinks hLy hRy hLR (toNat_lt_of_mem_nodes hp hl.size hseq hyn)
      (toNat_lt_of_mem_nodes hp hl.size hseq hLn) (toNat_lt_of_mem_nodes hp hl.size hseq hRn)
  have hlim := hp.limit
  obtain ⟨e, he, hye, hf'⟩ := hf.cutOut hin
  refine hl.of_formed (by simp) (by simp) (hcut ▸ hf') (fun s sh' hs => ?_)
    (fun s sh' hs => ?_) (by simp) (fun x hx => ?_)
  · rw [shards_unlinkSlot, Array.getElem?_map] at hs
    obtain ⟨sh, hsh, rfl⟩ := Option.map_eq_some_iff.1 hs
    have hbound : ∀ z ∈ sh.recent, z ≤ slotIdLimit := fun z hz => by
      have := hp.lt_of_listed (mem_listed.2 ⟨s, sh, hsh, hz⟩)
      omega
    by_cases hes : t.ends s = e
    · rw [hes, Function.update_self, ← hes, hseq s sh hsh, Shard.recent_unlink,
        map_toUInt32_erase hbound (by omega)]
    · rw [Function.update_of_ne hes, hseq s sh hsh, Shard.recent_unlink]
      -- the slot is on the list `e`, so on no other
      have hns : slot ∉ sh.recent := fun hm => hes (eq_of_mem_chain hf.nodup
        (ends_mem_lists hp.shards_size hsh) he
        (by rw [mem_chain, hseq s sh hsh]; exact .inr (.inl (List.mem_map_of_mem hm)))
        (by rw [mem_chain]; exact .inr (.inl hye)))
      rw [List.erase_of_not_mem hns]
  · rw [shards_unlinkSlot, Array.getElem?_map] at hs
    obtain ⟨sh, hsh, rfl⟩ := Option.map_eq_some_iff.1 hs
    exact ⟨sh, hsh, rfl, rfl, rfl⟩
  · have hxn := toUInt32_not_mem_nodes hp hseq (hp.lt_of_owned hx) (hp.not_listed_of_owned hx)
    rw [hcut, cutOut_of_ne (fun h => hxn (by rw [h]; exact hyn)) (fun h => hxn (by rw [h]; exact hLn))
      (fun h => hxn (by rw [h]; exact hRn))]

/-- Putting a slot that is in no place first in shard `s`'s list keeps the arena and the
lists in step. -/
theorem Linked.linkHead (hl : t.Linked) (hp : t.Placed) {s slot : Nat} (hs : s < t.config.shards)
    (hx : slot < t.config.capacity) (hnew : slot ∉ t.pool) : (t.linkHead s slot).Linked := by
  obtain ⟨seqs, hf, hseq⟩ := hl.formed
  have hlim := hp.limit
  have he : t.ends s ∈ t.lists := mem_lists.2 ⟨s, hs, rfl⟩
  have hxn : slot.toUInt32 ∉ nodes t.lists seqs :=
    toUInt32_not_mem_nodes hp hseq hx (fun h => hnew (mem_pool_iff.2 (.inl h)))
  have hhn : (t.ends s).head ∈ nodes t.lists seqs := head_mem_nodes he
  have hfn := hf.head_succ_mem he
  have hxs : slot.toUInt32.toNat = slot := Config.toNat_toUInt32_of_le (by omega)
  have hsplice : (t.linkHead s slot).linkOf = spliceIn t.linkOf (t.ends s).head slot.toUInt32 :=
    linkOf_linkHead (fun h => hxn (by rw [h]; exact hhn)) (fun h => hxn (by rw [← h]; exact hfn))
      (hf.head_succ_ne he) (by rw [hl.size, hxs]; omega)
      (toNat_lt_of_mem_nodes hp hl.size hseq hhn) (toNat_lt_of_mem_nodes hp hl.size hseq hfn)
  have hxr := Config.toNat_lt_listEnd (w := slot.toUInt32) (by omega)
  refine hl.of_formed (by simp) (by simp [Table.linkHead]) (hsplice ▸ hf.spliceIn he hxn hxr.1 hxr.2)
    (fun r sh' hr => ?_) (fun r sh' hr => ?_) (by simp) (fun z hz => ?_)
  · -- shard `s` has the slot first; the others keep their lists
    rw [shards_linkHead, Array.getElem?_modify] at hr
    by_cases hsr : s = r
    · subst hsr
      rw [if_pos rfl] at hr
      obtain ⟨sh, hsh, rfl⟩ := Option.map_eq_some_iff.1 hr
      rw [Function.update_self, hseq s sh hsh, Shard.recent_link, List.map_cons]
    · rw [if_neg hsr] at hr
      have hr' : r < t.config.shards := hp.shards_size ▸ (Array.getElem?_eq_some_iff.1 hr).1
      rw [Function.update_of_ne
        (show t.ends r ≠ t.ends s from fun h => hsr (Config.ends_injective hlim hr' hs h).symm),
        hseq r sh' hr]
  · rw [shards_linkHead, Array.getElem?_modify] at hr
    by_cases hsr : s = r
    · subst hsr
      rw [if_pos rfl] at hr
      obtain ⟨sh, hsh, rfl⟩ := Option.map_eq_some_iff.1 hr
      exact ⟨sh, hsh, rfl, rfl, rfl⟩
    · rw [if_neg hsr] at hr
      exact ⟨sh', hr, rfl, rfl, rfl⟩
  · -- an owned slot is no node of the lists and not the new slot
    have hzn := toUInt32_not_mem_nodes hp hseq (hp.lt_of_owned hz) (hp.not_listed_of_owned hz)
    have hzx : z.toUInt32 ≠ slot.toUInt32 := fun h => hnew (by
      rw [← Config.toUInt32_inj_of_le (hp.le_limit (mem_pool_iff.2 (.inr hz))) (by omega) h]
      exact mem_pool_iff.2 (.inr hz))
    rw [hsplice, spliceIn_of_ne hzx (fun h => hzn (by rw [h]; exact hhn))
      (fun h => hzn (by rw [h]; exact hfn))]

/-- Taking the tail of shard `s`'s list is unlinking the last slot of its `recent`. -/
theorem Linked.takeTail (hl : t.Linked) (hp : t.Placed) {s v : Nat}
    (h : t.takeTail s = some (v, t')) :
    ∃ sh, t.shards[s]? = some sh ∧ sh.recent.getLast? = some v ∧ t' = t.unlinkSlot v := by
  obtain ⟨seqs, hf, hseq⟩ := hl.formed
  have hlim := hp.limit
  unfold Table.takeTail at h
  split at h
  · cases h
  rename_i sh hsh
  have he := ends_mem_lists hp.shards_size hsh
  have hbound : ∀ z ∈ sh.recent, z ≤ slotIdLimit := fun z hz => by
    have := hp.lt_of_listed (mem_listed.2 ⟨s, sh, hsh, hz⟩)
    omega
  have htail := hf.tail_pred he
  rw [hseq s sh hsh] at htail
  dsimp only at h
  split at h
  · cases h
  rename_i hne
  simp only [Option.some.injEq, Prod.mk.injEq] at h
  obtain ⟨rfl, rfl⟩ := h
  -- the tail leads back to the last slot: the list is not empty
  rcases List.eq_nil_or_concat sh.recent with hnil | ⟨init, w, hw⟩
  · rw [hnil] at htail
    exact absurd htail hne
  rw [hw, List.concat_eq_append, List.map_append, List.getLast?_append_of_ne_nil _ (by simp)] at htail
  simp only [List.map_cons, List.map_nil, List.getLast?_singleton, Option.getD_some] at htail
  have hwl : w ≤ slotIdLimit := hbound w (by rw [hw]; simp)
  rw [htail, Config.toNat_toUInt32_of_le hwl]
  refine ⟨sh, hsh, by rw [hw]; simp, ?_⟩
  -- the last slot is on no other list and once on its own, so unlinking it drops the tail
  have hnd : (sh.recent.map Nat.toUInt32).Nodup := by
    have := chain_nodup hf.nodup he
    rw [chain_eq, hseq s sh hsh] at this
    exact (List.nodup_append.1 (List.nodup_cons.1 this).2).1
  have hwi : w ∉ init := by
    rw [hw, List.concat_eq_append, List.map_append] at hnd
    intro hm
    exact (List.nodup_append.1 hnd).2.2 _ (List.mem_map_of_mem hm) _ (by simp) rfl
  have hshards : (t.cutLinks w.toUInt32).shards.modify s Shard.dropTail =
      t.shards.map (·.unlink w) := by
    apply Array.ext_getElem?
    intro j
    rw [shards_cutLinks, Array.getElem?_modify, Array.getElem?_map]
    by_cases hsj : s = j
    · subst hsj
      rw [if_pos rfl, hsh]
      simp only [Option.map_some, Shard.dropTail, Shard.unlink, hw,
        List.concat_eq_append, List.dropLast_concat, List.erase_append_right _ hwi, List.erase_cons_head,
        List.append_nil]
    · rw [if_neg hsj]
      cases hj : t.shards[j]? with
      | none => rfl
      | some sh' =>
        have hj' := ends_mem_lists hp.shards_size hj
        have hw₁ : w.toUInt32 ∈ (t.ends s).chain (seqs (t.ends s)) := by
          rw [mem_chain, hseq s sh hsh, hw]
          simp
        have hns : w ∉ sh'.recent := fun hm => by
          have hw₂ : w.toUInt32 ∈ (t.ends j).chain (seqs (t.ends j)) := by
            rw [mem_chain, hseq j sh' hj]
            exact .inr (.inl (List.mem_map_of_mem hm))
          exact hsj (Config.ends_injective hlim
            (hp.shards_size ▸ (Array.getElem?_eq_some_iff.1 hsh).1)
            (hp.shards_size ▸ (Array.getElem?_eq_some_iff.1 hj).1)
            (eq_of_mem_chain hf.nodup he hj' hw₁ hw₂))
        simp [Shard.unlink, List.erase_of_not_mem hns]
  unfold Table.unlinkSlot modifyShard
  rw [hshards]

/-- Popping the top of shard `s`'s free list takes the first slot of its free list and keeps
the arena and the lists in step. -/
theorem Linked.takeFree (hl : t.Linked) (hp : t.Placed) {s slot : Nat}
    (h : t.takeFree s = some (slot, t')) :
    ∃ sh, t.shards[s]? = some sh ∧ sh.free.head? = some slot ∧ t'.Linked ∧
      t' = (t.setLinks slot.toUInt32 Link.detached).modifyShard s
        (fun sh => { sh.popFree (t.linkOf slot.toUInt32).succ with freeLen := sh.freeLen - 1 }) := by
  have hlim := hp.limit
  unfold Table.takeFree at h
  split at h
  · cases h
  rename_i sh hsh
  split at h
  · cases h
  rename_i hne
  simp only [Option.some.injEq, Prod.mk.injEq] at h
  obtain ⟨rfl, rfl⟩ := h
  have hchain := hl.free s sh hsh
  -- the register marks no end, so the free list has a first slot
  cases hfr : sh.free with
  | nil =>
    have := hchain.head_eq
    rw [hfr] at this
    exact absurd this hne
  | cons x rest =>
  rw [hfr] at hchain
  obtain ⟨hhead, hpred, hrest⟩ := hchain.cons_inv
  have hxo : x ∈ t.owned := mem_owned_of_free hsh (by rw [hfr]; exact List.mem_cons_self)
  have hxl : x ≤ slotIdLimit := hp.le_limit (mem_pool_iff.2 (.inr hxo))
  have hxs : x.toUInt32.toNat = x := Config.toNat_toUInt32_of_le hxl
  rw [hhead, hxs]
  set f := fun sh : Shard => { sh.popFree (t.linkOf x.toUInt32).succ with freeLen := sh.freeLen - 1 }
  set t₁ := (t.setLinks x.toUInt32 Link.detached).modifyShard s f
  refine ⟨sh, hsh, by simp [hfr], ?_, rfl⟩
  obtain ⟨seqs, hf, hseq⟩ := hl.formed
  have hxn := toUInt32_not_mem_nodes hp hseq (hp.lt_of_owned hxo) (hp.not_listed_of_owned hxo)
  have hlink : t₁.linkOf = setLink t.linkOf x.toUInt32 Link.detached := by
    rw [linkOf_modifyShard, linkOf_setLinks _ (by rw [hl.size, hxs]; have := hp.lt_of_owned hxo; omega)]
  -- every slot still owned is another slot than the one popped
  have howned : t.owned.Perm (x :: t₁.owned) := by
    have h₁ := owned_modifyShard f hsh
    have ht₁ : t₁.owned = (t.modifyShard s f).owned := rfl
    rw [ht₁]
    rw [List.perm_iff_count] at h₁ ⊢
    intro b
    have := h₁ b
    simp only [f, hfr, Shard.free_popFree, List.tail_cons, List.count_append, List.count_cons] at this ⊢
    omega
  have hx₁ : x ∉ t₁.owned := (List.nodup_cons.1 (howned.nodup_iff.1 hp.owned_nodup)).1
  have hkeep : ∀ z ∈ t₁.owned, t₁.linkOf z.toUInt32 = t.linkOf z.toUInt32 := fun z hz => by
    have hzx : z.toUInt32 ≠ x.toUInt32 := fun e => hx₁ (by
      rw [← Config.toUInt32_inj_of_le (hp.le_limit (mem_pool_iff.2 (.inr
        (howned.mem_iff.2 (List.mem_cons_of_mem _ hz))))) hxl e]
      exact hz)
    rw [hlink, setLink_of_ne _ _ hzx]
  have hc₁ : t₁.config = t.config := by simp [t₁]
  refine ⟨by simp [t₁, hl.size], ⟨seqs, ?_, fun r sh' hr => ?_⟩, fun r sh' hr => ?_,
    fun r sh' hr => ?_, fun z hz => ?_⟩
  · rw [lists_congr hc₁, hlink]
    exact hf.rewrite hxn rfl rfl
  · rw [ends_congr hc₁]
    rw [show t₁.shards[r]? = if s = r then t.shards[r]?.map f else t.shards[r]? from
      getElem?_shards_modifyShard _ _ _ _] at hr
    split at hr
    · obtain ⟨sh₀, hsh₀, rfl⟩ := Option.map_eq_some_iff.1 hr
      exact hseq r sh₀ hsh₀
    · exact hseq r sh' hr
  · have hfree : ∀ z ∈ sh'.free, z ∈ t₁.owned := fun z hz => mem_owned_of_free hr hz
    rw [show t₁.shards[r]? = if s = r then t.shards[r]?.map f else t.shards[r]? from
      getElem?_shards_modifyShard _ _ _ _] at hr
    split at hr
    · rename_i hsr
      subst hsr
      rw [hsh] at hr
      cases hr
      simp only [f, Shard.free_popFree, Shard.freeHead_popFree, hfr, List.tail_cons]
      exact hrest.frame fun z hz => hkeep z (hfree z (by simp [f, hfr, hz]))
    · exact (hl.free r sh' hr).frame fun z hz => hkeep z (hfree z hz)
  · rw [show t₁.shards[r]? = if s = r then t.shards[r]?.map f else t.shards[r]? from
      getElem?_shards_modifyShard _ _ _ _] at hr
    split at hr
    · rename_i hsr
      subst hsr
      rw [hsh] at hr
      cases hr
      have := hl.freeLen s sh hsh
      simp only [f, Shard.free_popFree, hfr, List.tail_cons, this, List.length_cons]
      omega
    · exact hl.freeLen r sh' hr
  · rw [hkeep z (mem_owned_of_spare hz)]
    exact hl.spare z hz

/-- Releasing a slot that is in no place keeps the arena and the lists in step: the slot
goes on the free list with a pair that marks no predecessor and leads to the old top, or
into the spare pool detached. -/
theorem Linked.release (hl : t.Linked) (hp : t.Placed) {s slot : Nat} (hs : s < t.config.shards)
    (hx : slot < t.config.capacity) (hnew : slot ∉ t.pool) : (t.release s slot).Linked := by
  obtain ⟨seqs, hf, hseq⟩ := hl.formed
  have hlim := hp.limit
  obtain ⟨sh, hsh⟩ := hp.exists_shard hs
  have hxs : slot.toUInt32.toNat = slot := Config.toNat_toUInt32_of_le (by omega)
  have hxn : slot.toUInt32 ∉ nodes t.lists seqs :=
    toUInt32_not_mem_nodes hp hseq hx (fun h => hnew (mem_pool_iff.2 (.inl h)))
  have hbx : slot.toUInt32.toNat < t.links.size := by rw [hl.size, hxs]; omega
  -- the owned slots of `t` are other slots than the one released
  have hother : ∀ z ∈ t.owned, z.toUInt32 ≠ slot.toUInt32 := fun z hz e => hnew (by
    rw [← Config.toUInt32_inj_of_le (hp.le_limit (mem_pool_iff.2 (.inr hz))) (by omega) e]
    exact mem_pool_iff.2 (.inr hz))
  by_cases hroom : (t.shards[s]?.map (·.hasRoom)).getD false = true
  · set f := fun sh : Shard => { sh.pushFree slot with freeLen := sh.freeLen + 1 }
    have heq : t.release s slot = (t.setLinks slot.toUInt32 ⟨listEnd, sh.freeHead⟩).modifyShard s f := by
      rw [Table.release, if_pos hroom, pushFree, hsh]
      simp only [modifyShard, Array.modify_modify_of_eq]
      rfl
    rw [heq]
    set t₁ := (t.setLinks slot.toUInt32 ⟨listEnd, sh.freeHead⟩).modifyShard s f
    have hlink : t₁.linkOf = setLink t.linkOf slot.toUInt32 ⟨listEnd, sh.freeHead⟩ := by
      rw [linkOf_modifyShard, linkOf_setLinks _ hbx]
    have hkeep : ∀ z ∈ t.owned, t₁.linkOf z.toUInt32 = t.linkOf z.toUInt32 := fun z hz => by
      rw [hlink, setLink_of_ne _ _ (hother z hz)]
    -- the old top is a free slot or marks the end: no side of the new pair is held
    have hheadl : sh.freeHead ≠ locked := hl.freeHead_ne_locked hp hsh
    have hsh₁ : ∀ r, t₁.shards[r]? = if s = r then t.shards[r]?.map f else t.shards[r]? :=
      fun r => getElem?_shards_modifyShard _ _ _ _
    have hc₁ : t₁.config = t.config := by simp [t₁]
    refine ⟨by simp [t₁, hl.size], ⟨seqs, ?_, fun r sh' hr => ?_⟩, fun r sh' hr => ?_,
      fun r sh' hr => ?_, fun z hz => ?_⟩
    · rw [lists_congr hc₁, hlink]
      exact hf.rewrite hxn (by simp [Link.touchesEnd])
        (Link.hasLockedSide_eq_false.2 ⟨Link.listEnd_ne_locked, hheadl⟩)
    · rw [ends_congr hc₁]
      rw [hsh₁] at hr
      split at hr
      · obtain ⟨sh₀, hsh₀, rfl⟩ := Option.map_eq_some_iff.1 hr
        exact hseq r sh₀ hsh₀
      · exact hseq r sh' hr
    · rw [hsh₁] at hr
      split at hr
      · rename_i hsr
        subst hsr
        rw [hsh] at hr
        cases hr
        refine .cons (by rw [hlink, setLink_self]) ?_
        rw [show (t₁.linkOf slot.toUInt32).succ = sh.freeHead by rw [hlink, setLink_self]]
        exact (hl.free s sh hsh).frame fun z hz => hkeep z (mem_owned_of_free hsh hz)
      · exact (hl.free r sh' hr).frame fun z hz => hkeep z (mem_owned_of_free hr hz)
    · rw [hsh₁] at hr
      split at hr
      · rename_i hsr
        subst hsr
        rw [hsh] at hr
        cases hr
        simp [f, Shard.pushFree, hl.freeLen s sh hsh]
      · exact hl.freeLen r sh' hr
    · rw [hkeep z (mem_owned_of_spare hz)]
      exact hl.spare z hz
  · rw [Table.release, if_neg hroom]
    set t₁ : Table κ ν := { t.setLinks slot.toUInt32 Link.detached with spare := slot :: t.spare }
    have hlink : t₁.linkOf = setLink t.linkOf slot.toUInt32 Link.detached :=
      linkOf_setLinks _ hbx
    have hkeep : ∀ z ∈ t.owned, t₁.linkOf z.toUInt32 = t.linkOf z.toUInt32 := fun z hz => by
      rw [hlink, setLink_of_ne _ _ (hother z hz)]
    refine ⟨by simp [t₁, hl.size], ⟨seqs, ?_, fun r sh' hr => hseq r sh' hr⟩,
      fun r sh' hr => ?_, fun r sh' hr => hl.freeLen r sh' hr, fun z hz => ?_⟩
    · rw [hlink]
      exact hf.rewrite hxn rfl rfl
    · exact (hl.free r sh' hr).frame fun z hz => hkeep z (mem_owned_of_free hr hz)
    · rcases List.mem_cons.1 hz with rfl | hz
      · rw [hlink, setLink_self]
      · rw [hkeep z (mem_owned_of_spare hz)]
        exact hl.spare z hz

end Keep

end Table

end ShardCache
