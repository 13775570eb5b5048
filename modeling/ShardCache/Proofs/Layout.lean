import Mathlib.Data.List.Nodup
import Mathlib.Data.List.Induction
import ShardCache.Proofs.Ring
/-!
# The layout of the index does not remember deletions

Placing slots one after another, each at the first free bucket at or after
its home, gives one layout per order of placement (`Index.canonical`).
`Arranged ix homeOf order` says the same thing bucket by bucket: `ix` holds
every slot of `order` once, and every bucket from a slot's home up to the
slot holds a slot placed before it.

The backward shift of `removeAt` (Knuth's Algorithm R) keeps that shape for
the order without the removed slot. At each turn of its walk the buckets
other than the hole satisfy `Shifting`: the condition above with the hole
left out, plus the fact that a slot whose stretch from its home covers the
hole lies past the bucket being looked at. A slot moves into the hole
exactly when its stretch covers the hole, and the walk ends at a free
bucket, which no stretch may cover, so at the end no stretch covers the hole.

Results:
* `Arranged.place`: placing a new slot extends the layout;
  `arranged_canonical`: the canonical layout is arranged.
* `Arranged.eq_canonical`: an arranged index is the canonical layout.
* `Arranged.removeAt`: backward-shift deletion leaves the layout of the
  order without the removed slot; `removeAt_canonical`: deletion from the
  canonical layout gives the layout the slot would have had it never been
  placed.
-/
namespace ShardCache

namespace Index

/-- `ix` holds the slots of `order`, each in one bucket, and every bucket from
a slot's home up to the slot holds a slot placed before it. -/
structure Arranged (ix : Index) (homeOf : Nat → Nat) (order : List Nat) : Prop where
  nodup : order.Nodup
  home_lt : ∀ y ∈ order, homeOf y < ix.size
  mem_iff : ∀ y, y ∈ order ↔ ∃ p, ix.get p = some y
  unique : ∀ p q y, ix.get p = some y → ix.get q = some y → p = q
  earlier : ∀ p y q, ix.get p = some y → q < ix.size → ix.gap (homeOf y) q < ix.gap (homeOf y) p →
    ∃ z, ix.get q = some z ∧ [z, y].Sublist order

section Sublists

variable {l : List Nat} {a b x : Nat}

theorem pair_sublist_erase (h : [a, b].Sublist l) (ha : a ≠ x) (hb : b ≠ x) : [a, b].Sublist (l.erase x) := by
  have h' := h.erase x
  rwa [List.erase_of_not_mem (by simp [Ne.symm ha, Ne.symm hb])] at h'

theorem pair_sublist_of_append (h : [a, b].Sublist (l ++ [x])) (hb : b ≠ x) : [a, b].Sublist l := by
  obtain ⟨l₁, l₂, heq, h₁, h₂⟩ := List.sublist_append_iff.1 h
  rcases List.sublist_singleton.1 h₂ with rfl | rfl
  · rw [List.append_nil] at heq
    rw [heq]
    exact h₁
  · have hlast := congrArg List.getLast? heq
    simp at hlast
    exact absurd hlast hb

theorem pair_sublist_append (h : a ∈ l) : [a, x].Sublist (l ++ [x]) :=
  List.Sublist.append (List.singleton_sublist.2 h) (List.Sublist.refl [x])

end Sublists

variable {ix : Index} {homeOf : Nat → Nat} {order : List Nat}

theorem Arranged.nodup_slots (h : ix.Arranged homeOf order) : ix.slots.Nodup := by
  rw [slots_eq]
  exact List.nodup_range.filterMap fun p q y hp hq => h.unique p q y hp hq

theorem Arranged.slots_perm (h : ix.Arranged homeOf order) : ix.slots.Perm order :=
  (List.perm_ext_iff_of_nodup h.nodup_slots h.nodup).2 fun y => by rw [mem_slots, h.mem_iff]

/-- Only the homes of the placed slots matter. -/
theorem Arranged.congr {homeOf' : Nat → Nat} (h : ix.Arranged homeOf order)
    (hhome : ∀ y ∈ order, homeOf' y = homeOf y) : ix.Arranged homeOf' order := by
  have hget : ∀ p y, ix.get p = some y → homeOf' y = homeOf y :=
    fun p y hp => hhome y ((h.mem_iff y).2 ⟨p, hp⟩)
  refine ⟨h.nodup, fun y hy => ?_, h.mem_iff, h.unique, fun p y q hp hq hgap => ?_⟩
  · rw [hhome y hy]
    exact h.home_lt y hy
  · rw [hget p y hp] at hgap
    exact h.earlier p y q hp hq hgap

/-- Every bucket from a slot's home up to the slot is occupied. -/
theorem Arranged.occupied (h : ix.Arranged homeOf order) {p y q : Nat} (hp : ix.get p = some y)
    (hq : q < ix.size) (hgap : ix.gap (homeOf y) q < ix.gap (homeOf y) p) : ∃ z, ix.get q = some z := by
  obtain ⟨z, hz, -⟩ := h.earlier p y q hp hq hgap
  exact ⟨z, hz⟩

/-- An index with fewer slots than buckets has a free bucket. -/
theorem exists_free (h : ix.slots.length < ix.size) : ∃ p < ix.size, ix.get p = none := by
  rw [slots_eq] at h
  by_contra hex
  have hne : ∀ p < ix.size, ix.get p ≠ none := fun p hp e => hex ⟨p, hp, e⟩
  have hall : ((List.range ix.size).filterMap ix.get).length = (List.range ix.size).length :=
    List.filterMap_length_eq_length.2 fun p hp =>
      Option.isSome_iff_ne_none.2 (hne p (List.mem_range.1 hp))
  rw [List.length_range] at hall
  omega

/-- The probe for a placed slot from its home stops at the slot's bucket. -/
theorem Arranged.probe_self (h : ix.Arranged homeOf order) {p x : Nat} (hp : ix.get p = some x) :
    ix.probe (homeOf x) (· == x) = .hit (ix.gap (homeOf x) p) x := by
  have hx : x ∈ order := (h.mem_iff x).2 ⟨p, hp⟩
  apply probe_eq_hit (h.home_lt x hx) hp (by simp)
  intro q hq hgap
  obtain ⟨z, hz, hzx⟩ := h.earlier p x q hp hq hgap
  have hne : z ≠ x := by
    have hnd := h.nodup.sublist hzx
    simpa using hnd
  exact ⟨z, hz, by simpa using hne⟩

theorem Arranged.exists_free (h : ix.Arranged homeOf order) (hlen : order.length < ix.size) :
    ∃ p < ix.size, ix.get p = none :=
  Index.exists_free (by rw [h.slots_perm.length_eq]; exact hlen)

/-! ## Placing -/

theorem canonical_append (n : Nat) (homeOf : Nat → Nat) (order : List Nat) (y : Nat) :
    canonical n homeOf (order ++ [y]) = (canonical n homeOf order).place (homeOf y) y := by
  simp [canonical, List.foldl_append]

theorem place_eq_write {start y d : Nat} (h : ix.probe start (fun _ => false) = .vacant d) :
    ix.place start y = ix.write (ix.position start d) (some y) := by
  simp [place, h]

/-- Where placing a slot puts it: the first free bucket from its home, past
occupied buckets only. -/
theorem Arranged.place_eq (h : ix.Arranged homeOf order) (y : Nat) {start : Nat} (hs : start < ix.size)
    (hlen : order.length < ix.size) :
    ∃ d < ix.size, ix.place start y = ix.write (ix.position start d) (some y) ∧
      ix.get (ix.position start d) = none ∧ ∀ j < d, ∃ z, ix.get (ix.position start j) = some z := by
  cases hp : ix.probe start (fun _ => false) with
  | hit d z =>
    obtain ⟨-, -, ht, -⟩ := probe_hit hp
    cases ht
  | vacant d =>
    obtain ⟨hd, hfree, hpass⟩ := probe_vacant hp
    refine ⟨d, hd, place_eq_write hp, hfree, fun j hj => ?_⟩
    obtain ⟨z, hz, -⟩ := hpass j (Nat.zero_le _) hj
    exact ⟨z, hz⟩
  | full =>
    obtain ⟨p, hp', hfree⟩ := h.exists_free hlen
    obtain ⟨z, hz⟩ := probe_full hs hp p hp'
    rw [hfree] at hz
    cases hz

/-- Placing a new slot at the first free bucket from its home extends the
layout by that slot. -/
theorem Arranged.place (h : ix.Arranged homeOf order) {y : Nat} (hy : y ∉ order)
    (hhome : homeOf y < ix.size) (hlen : order.length < ix.size) :
    (ix.place (homeOf y) y).Arranged homeOf (order ++ [y]) := by
  obtain ⟨d, hd, heq, hfree, hocc⟩ := h.place_eq y hhome hlen
  rw [heq]
  set P := ix.position (homeOf y) d with hP
  have hPlt : P < ix.size := position_lt (by omega)
  have hget : ∀ q, (ix.write P (some y)).get q = if q = P then some y else ix.get q := by
    intro q
    rw [get_write]
    by_cases hq : q = P
    · simp [hq, hPlt]
    · simp [hq, Ne.symm hq]
  refine ⟨?_, ?_, ?_, ?_, ?_⟩
  · exact List.nodup_append.2 ⟨h.nodup, List.nodup_singleton y, by
      intro a ha b hb; simp at hb; subst hb; exact fun e => hy (e ▸ ha)⟩
  · intro z hz
    rw [size_write]
    rcases List.mem_append.1 hz with hz | hz
    · exact h.home_lt z hz
    · simp at hz; subst hz; exact hhome
  · intro z
    simp only [hget, List.mem_append, List.mem_singleton]
    constructor
    · rintro (hz | rfl)
      · obtain ⟨q, hq⟩ := (h.mem_iff z).1 hz
        refine ⟨q, ?_⟩
        have : q ≠ P := fun e => by rw [e, hfree] at hq; cases hq
        simp [this, hq]
      · exact ⟨P, by simp⟩
    · rintro ⟨q, hq⟩
      by_cases hqP : q = P
      · simp [hqP] at hq; exact Or.inr hq.symm
      · simp only [hqP, if_false] at hq
        exact Or.inl ((h.mem_iff z).2 ⟨q, hq⟩)
  · intro p q z hp hq
    simp only [hget] at hp hq
    by_cases hpP : p = P <;> by_cases hqP : q = P
    · rw [hpP, hqP]
    · simp only [hpP, hqP, if_true, if_false] at hp hq
      cases hp
      exact absurd ((h.mem_iff y).2 ⟨q, hq⟩) hy
    · simp only [hpP, hqP, if_true, if_false] at hp hq
      cases hq
      exact absurd ((h.mem_iff y).2 ⟨p, hp⟩) hy
    · simp only [hpP, hqP, if_false] at hp hq
      exact h.unique p q z hp hq
  · intro p z q hp hq hgap
    rw [size_write] at hq
    simp only [gap_write] at hgap
    simp only [hget] at hp ⊢
    by_cases hpP : p = P
    · -- the new slot: its stretch is the run of occupied buckets the probe passed
      simp only [hpP, if_true] at hp
      cases hp
      rw [hpP, hP, gap_position hhome hd] at hgap
      obtain ⟨w, hw⟩ := hocc _ hgap
      rw [position_gap hhome hq] at hw
      have hqP : q ≠ P := fun e => by rw [e, hfree] at hw; cases hw
      exact ⟨w, by simp [hqP, hw], pair_sublist_append ((h.mem_iff w).2 ⟨q, hw⟩)⟩
    · simp only [hpP, if_false] at hp
      obtain ⟨w, hw, hsub⟩ := h.earlier p z q hp hq hgap
      have hqP : q ≠ P := fun e => by rw [e, hfree] at hw; cases hw
      exact ⟨w, by simp [hqP, hw], hsub.trans (List.sublist_append_left _ _)⟩

theorem arranged_empty (n : Nat) (homeOf : Nat → Nat) : (empty n).Arranged homeOf [] where
  nodup := List.nodup_nil
  home_lt := by simp
  mem_iff := by simp
  unique := by simp
  earlier := by simp

/-- The canonical layout of distinct slots, no more than the buckets, is
arranged. -/
theorem arranged_canonical {n : Nat} (homeOf : Nat → Nat) {order : List Nat} (hnd : order.Nodup)
    (hhome : ∀ y ∈ order, homeOf y < n) (hlen : order.length ≤ n) :
    (canonical n homeOf order).Arranged homeOf order := by
  induction order using List.reverseRecOn with
  | nil => exact arranged_empty n homeOf
  | append_singleton init y ih =>
    have hnd' := List.nodup_append.1 hnd
    have hy : y ∉ init := fun hy => hnd'.2.2 y hy y (List.mem_singleton_self y) rfl
    have ih' := ih hnd'.1 (fun z hz => hhome z (List.mem_append_left _ hz))
      (by simp at hlen; omega)
    rw [canonical_append]
    exact ih'.place hy (by rw [size_canonical]; exact hhome y (by simp))
      (by rw [size_canonical]; simp at hlen; omega)

/-! ## Uniqueness -/

/-- Taking the last placed slot out of an arranged index leaves the layout of
the slots before it. -/
theorem Arranged.erase_last {init : List Nat} {z P : Nat} (h : ix.Arranged homeOf (init ++ [z]))
    (hP : ix.get P = some z) : (ix.write P none).Arranged homeOf init := by
  have hnd := List.nodup_append.1 h.nodup
  have hz : z ∉ init := fun hz => hnd.2.2 z hz z (List.mem_singleton_self z) rfl
  have hget : ∀ q, (ix.write P none).get q = if q = P then none else ix.get q := by
    intro q
    rw [get_write]
    by_cases hq : q = P
    · simp [hq, get_lt hP]
    · simp [hq, Ne.symm hq]
  have hne : ∀ q y, ix.get q = some y → y ≠ z → q ≠ P := fun q y hq hyz e => by
    rw [e, hP] at hq; cases hq; exact hyz rfl
  refine ⟨hnd.1, ?_, ?_, ?_, ?_⟩
  · intro y hy
    rw [size_write]
    exact h.home_lt y (List.mem_append_left _ hy)
  · intro y
    simp only [hget]
    constructor
    · intro hy
      obtain ⟨q, hq⟩ := (h.mem_iff y).1 (List.mem_append_left _ hy)
      have hyz : y ≠ z := fun e => hz (e ▸ hy)
      exact ⟨q, by simp [hne q y hq hyz, hq]⟩
    · rintro ⟨q, hq⟩
      by_cases hqP : q = P
      · simp [hqP] at hq
      · simp only [hqP, if_false] at hq
        rcases List.mem_append.1 ((h.mem_iff y).2 ⟨q, hq⟩) with hy | hy
        · exact hy
        · simp at hy; subst hy; exact absurd (h.unique q P y hq hP) hqP
  · intro p q y hp hq
    simp only [hget] at hp hq
    split at hp
    · cases hp
    · split at hq
      · cases hq
      · exact h.unique p q y hp hq
  · intro p y q hp hq hgap
    rw [size_write] at hq
    simp only [gap_write] at hgap
    simp only [hget] at hp ⊢
    split at hp
    · cases hp
    · rename_i hpP
      have hyz : y ≠ z := fun e => hpP (h.unique p P y hp (e ▸ hP))
      obtain ⟨w, hw, hsub⟩ := h.earlier p y q hp hq hgap
      have hsub' := pair_sublist_of_append hsub hyz
      have hwz : w ≠ z := fun e => hz (e ▸ hsub'.subset (by simp))
      exact ⟨w, by simp [hne q w hw hwz, hw], hsub'⟩

/-- An arranged index is the canonical layout of its order. -/
theorem Arranged.eq_canonical (h : ix.Arranged homeOf order) :
    ix = canonical ix.size homeOf order := by
  induction order using List.reverseRecOn generalizing ix with
  | nil =>
    apply ext_get (by simp)
    intro p
    rw [canonical, List.foldl_nil, get_empty]
    cases hp : ix.get p with
    | none => rfl
    | some y => exact absurd ((h.mem_iff y).2 ⟨p, hp⟩) (List.not_mem_nil)
  | append_singleton init z ih =>
    obtain ⟨P, hP⟩ := (h.mem_iff z).1 (by simp)
    have hPlt := get_lt hP
    have h₀ := h.erase_last hP
    have hhome : homeOf z < ix.size := h.home_lt z (by simp)
    rw [canonical_append, ← size_write ix P none, ← ih h₀]
    -- the first free bucket from `z`'s home, once `z` is out, is `z`'s own
    have hprobe : (ix.write P none).probe (homeOf z) (fun _ => false) =
        .vacant ((ix.write P none).gap (homeOf z) P) := by
      apply probe_eq_vacant (by rwa [size_write]) (by rwa [size_write])
        (get_write_self hPlt none)
      intro q hq hgap
      rw [size_write] at hq
      simp only [gap_write] at hgap
      obtain ⟨w, hw, -⟩ := h.earlier P z q hP hq hgap
      have hqP : q ≠ P := fun e => by
        rw [e] at hgap
        exact Nat.lt_irrefl _ hgap
      exact ⟨w, by rw [get_write_ne (Ne.symm hqP), hw], rfl⟩
    rw [place_eq_write hprobe]
    apply ext_get (by simp)
    intro q
    have hpos : (ix.write P none).position (homeOf z) ((ix.write P none).gap (homeOf z) P) = P :=
      position_gap (by rwa [size_write]) (by rwa [size_write])
    rw [hpos]
    by_cases hq : q = P
    · rw [hq, hP, get_write_self (by rwa [size_write])]
    · rw [get_write_ne (Ne.symm hq), get_write_ne (Ne.symm hq)]

/-! ## Deletion by backward shift -/

/-- The walk of `shift` sees buckets by their offset from its start, so it may
as well start at the hole. -/
theorem shift_rebase (homeOf : Nat → Nat) (start d : Nat) :
    ∀ (fuel : Nat) (ix : Index) (hole next : Nat),
      ix.shift homeOf start (d + hole) (d + next) fuel =
        ix.shift homeOf (ix.position start d) hole next fuel
  | 0, ix, hole, next => by
    simp only [shift, position, Nat.mod_add_mod, Nat.add_assoc]
  | fuel + 1, ix, hole, next => by
    have hpos : ∀ i, ix.position start (d + i) = ix.position (ix.position start d) i := by
      intro i
      simp only [position, Nat.mod_add_mod, Nat.add_assoc]
    have ih := shift_rebase homeOf start d fuel
    simp only [shift, hpos, Nat.add_sub_add_left]
    split
    · rfl
    · split
      · rw [show d + next + 1 = d + (next + 1) by omega, ih, position_write]
      · rw [show d + next + 1 = d + (next + 1) by omega, ih]

theorem removeAt_eq_shift (ix : Index) (homeOf : Nat → Nat) (start depth : Nat) :
    ix.removeAt homeOf start depth = ix.shift homeOf (ix.position start depth) 0 1 ix.size := by
  unfold removeAt
  simpa using shift_rebase homeOf start depth ix.size ix 0 1

/-- The backward shift that removes the slot at `s`, with the hole at offset
`hole` from `s` and the walk at offset `next`: the buckets other than the
hole hold `rest`, each slot once; every bucket but the hole between a slot's
home and the slot holds an earlier slot; a slot whose stretch from its home
covers the hole lies at least `next - hole` past it; and a free bucket lies
ahead of the walk. -/
structure Shifting (ix : Index) (homeOf : Nat → Nat) (rest : List Nat) (s hole next : Nat) : Prop where
  start_lt : s < ix.size
  hole_lt : hole < next
  nodup : rest.Nodup
  home_lt : ∀ y ∈ rest, homeOf y < ix.size
  mem_iff : ∀ y, y ∈ rest ↔ ∃ p, p ≠ ix.position s hole ∧ ix.get p = some y
  unique : ∀ p q y, p ≠ ix.position s hole → q ≠ ix.position s hole → ix.get p = some y →
    ix.get q = some y → p = q
  earlier : ∀ p y q, p ≠ ix.position s hole → ix.get p = some y → q < ix.size →
    q ≠ ix.position s hole → ix.gap (homeOf y) q < ix.gap (homeOf y) p →
    ∃ z, ix.get q = some z ∧ [z, y].Sublist rest
  past : ∀ p y, p ≠ ix.position s hole → ix.get p = some y →
    ix.gap (homeOf y) (ix.position s hole) < ix.gap (homeOf y) p →
    next - hole ≤ ix.gap (ix.position s hole) p
  ahead : ∃ f, next ≤ f ∧ f < ix.size ∧ ix.get (ix.position s f) = none

variable {rest : List Nat} {s hole next y : Nat}

/-- Emptying the bucket of `x` starts the walk. -/
theorem Shifting.start (h : ix.Arranged homeOf order) {x : Nat} (hs : s < ix.size)
    (hx : ix.get s = some x) (hlen : order.length < ix.size) :
    ix.Shifting homeOf (order.erase x) s 0 1 := by
  have hP : ix.position s 0 = s := position_zero hs
  have hne : ∀ p y, ix.get p = some y → p ≠ s → y ≠ x := fun p y hp hps e =>
    hps (h.unique p s y hp (e ▸ hx))
  refine ⟨hs, Nat.zero_lt_one, h.nodup.erase x,
    fun y hy => h.home_lt y (List.mem_of_mem_erase hy), ?_, ?_, ?_, ?_, ?_⟩
  · intro y
    rw [hP, h.nodup.mem_erase_iff]
    constructor
    · rintro ⟨hyx, hy⟩
      obtain ⟨p, hp⟩ := (h.mem_iff y).1 hy
      refine ⟨p, fun e => hyx ?_, hp⟩
      rw [e, hx] at hp
      cases hp
      rfl
    · rintro ⟨p, hps, hp⟩
      exact ⟨hne p y hp hps, (h.mem_iff y).2 ⟨p, hp⟩⟩
  · intro p q y _ _ hp hq
    exact h.unique p q y hp hq
  · intro p y q hps hp hq hqs hgap
    rw [hP] at hps hqs
    obtain ⟨z, hz, hsub⟩ := h.earlier p y q hp hq hgap
    exact ⟨z, hz, pair_sublist_erase hsub (hne q z hz hqs) (hne p y hp hps)⟩
  · intro p y hps hp _
    rw [hP] at hps ⊢
    have : ix.gap s p ≠ 0 := fun e => hps ((gap_eq_zero hs (get_lt hp)).1 e).symm
    omega
  · obtain ⟨p, hp, hfree⟩ := h.exists_free hlen
    have hps : p ≠ s := fun e => by rw [e, hx] at hfree; cases hfree
    have : ix.gap s p ≠ 0 := fun e => hps ((gap_eq_zero hs hp).1 e).symm
    exact ⟨ix.gap s p, by omega, gap_lt (by omega), by rw [position_gap hs hp]; exact hfree⟩

/-- A slot whose stretch does not reach back to the hole stays. -/
theorem Shifting.skip (h : ix.Shifting homeOf rest s hole next)
    (hy : ix.get (ix.position s next) = some y)
    (hd : ix.gap (homeOf y) (ix.position s next) < next - hole) :
    ix.Shifting homeOf rest s hole (next + 1) := by
  obtain ⟨f, hnf, hfn, hfree⟩ := h.ahead
  have hs := h.start_lt
  have hnext : next < ix.size := by omega
  have hPn : ix.position s next ≠ ix.position s hole := (position_ne hs h.hole_lt hnext).symm
  have hPh : ix.position s hole < ix.size := position_lt (by omega)
  have hgapn : ix.gap (ix.position s hole) (ix.position s next) = next - hole :=
    gap_position_position hs (Nat.le_of_lt h.hole_lt) hnext
  refine { h with hole_lt := by have := h.hole_lt; omega, past := ?_, ahead := ?_ }
  · intro p w hph hp hcov
    have hold := h.past p w hph hp hcov
    suffices hlt : next - hole < ix.gap (ix.position s hole) p by omega
    refine Nat.lt_of_le_of_ne hold (fun heq => ?_)
    -- a slot right at the walk whose stretch covers the hole would have moved
    have hpn : p = ix.position s next :=
      eq_of_gap_eq hPh (get_lt hp) (position_lt (by omega)) (by omega)
    rw [hpn, hy] at hp
    have hwy : w = y := (Option.some.inj hp).symm
    subst hwy
    have hhome := h.home_lt w ((h.mem_iff w).2 ⟨_, hPn, hy⟩)
    have := gap_add_of_lt hhome hPh (position_lt (by omega)) (hpn ▸ hcov)
    omega
  · refine ⟨f, Nat.lt_of_le_of_ne hnf (fun e => ?_), hfn, hfree⟩
    rw [← e, hy] at hfree
    cases hfree

/-- A slot whose stretch reaches back to the hole moves into it, and the hole
moves to where it was. -/
theorem Shifting.move (h : ix.Shifting homeOf rest s hole next)
    (hy : ix.get (ix.position s next) = some y)
    (hd : next - hole ≤ ix.gap (homeOf y) (ix.position s next)) :
    (ix.write (ix.position s hole) (some y)).Shifting homeOf rest s next (next + 1) := by
  obtain ⟨f, hnf, hfn, hfree⟩ := h.ahead
  have hs := h.start_lt
  have hn : 0 < ix.size := by omega
  have hnext : next < ix.size := by omega
  set Ph := ix.position s hole with hPh_def
  set Pn := ix.position s next with hPn_def
  have hPn : Pn ≠ Ph := (position_ne hs h.hole_lt hnext).symm
  have hPhl : Ph < ix.size := position_lt hn
  have hPnl : Pn < ix.size := position_lt hn
  have hgapn : ix.gap Ph Pn = next - hole := gap_position_position hs (Nat.le_of_lt h.hole_lt) hnext
  have hyrest : y ∈ rest := (h.mem_iff y).2 ⟨_, hPn, hy⟩
  have hhome := h.home_lt y hyrest
  -- the hole lies inside `y`'s stretch
  have hcut : ix.gap (homeOf y) Ph + (next - hole) = ix.gap (homeOf y) Pn := by
    have : ix.gap (homeOf y) Ph < ix.size := gap_lt hn
    rcases gap_add_gap hhome hPhl hPnl with h2 | h2 <;> omega
  have hget : ∀ q, (ix.write Ph (some y)).get q = if q = Ph then some y else ix.get q := by
    intro q
    rw [get_write]
    by_cases hq : q = Ph
    · simp [hq, hPhl]
    · simp [hq, Ne.symm hq]
  refine ⟨by rwa [size_write], Nat.lt_succ_self _, h.nodup,
    fun z hz => by rw [size_write]; exact h.home_lt z hz, ?_, ?_, ?_, ?_, ?_⟩
  · intro z
    simp only [position_write, hget, ← hPn_def]
    rw [h.mem_iff z]
    constructor
    · rintro ⟨p, hph, hp⟩
      have hph' : p ≠ Ph := hph
      by_cases hpn : p = Pn
      · rw [hpn, hy] at hp
        have hzy : z = y := (Option.some.inj hp).symm
        subst hzy
        exact ⟨Ph, Ne.symm hPn, by simp⟩
      · exact ⟨p, hpn, by simp [hph', hp]⟩
    · rintro ⟨p, hpn, hp⟩
      by_cases hph : p = Ph
      · simp only [hph, if_true] at hp
        have hzy : z = y := (Option.some.inj hp).symm
        subst hzy
        exact ⟨Pn, hPn, hy⟩
      · simp only [hph, if_false] at hp
        exact ⟨p, hph, hp⟩
  · intro p q z hpn hqn hp hq
    simp only [position_write, hget, ← hPn_def] at hpn hqn hp hq
    by_cases hph : p = Ph <;> by_cases hqh : q = Ph
    · rw [hph, hqh]
    · simp only [hph, hqh, if_true, if_false] at hp hq
      have hzy : z = y := (Option.some.inj hp).symm
      subst hzy
      exact absurd (h.unique q Pn z hqh hPn hq hy) hqn
    · simp only [hph, hqh, if_true, if_false] at hp hq
      have hzy : z = y := (Option.some.inj hq).symm
      subst hzy
      exact absurd (h.unique p Pn z hph hPn hp hy) hpn
    · simp only [hph, hqh, if_false] at hp hq
      exact h.unique p q z hph hqh hp hq
  · intro p w q hpn hp hq hqn hgap
    simp only [position_write, gap_write, size_write, hget, ← hPn_def] at hpn hp hq hqn hgap ⊢
    by_cases hph : p = Ph
    · -- the moved slot: its new stretch is part of its old one
      simp only [hph, if_true] at hp
      have hwy : w = y := (Option.some.inj hp).symm
      subst hwy
      rw [hph] at hgap
      have hqh : q ≠ Ph := fun e => by rw [e] at hgap; exact Nat.lt_irrefl _ hgap
      obtain ⟨z, hz, hsub⟩ := h.earlier Pn w q hPn hy hq hqh (by omega)
      exact ⟨z, by simp [hqh, hz], hsub⟩
    · simp only [hph, if_false] at hp
      by_cases hqh : q = Ph
      · -- the hole was in `w`'s stretch, so the moved slot lies in it too
        rw [hqh] at hgap
        have hold : next - hole ≤ ix.gap Ph p := h.past p w hph hp hgap
        have hlt : ix.gap Ph Pn < ix.gap Ph p := by
          refine Nat.lt_of_le_of_ne (by omega) (fun e => hpn ?_)
          exact eq_of_gap_eq hPhl (get_lt hp) hPnl e.symm
        have hwhome := h.home_lt w ((h.mem_iff w).2 ⟨p, hph, hp⟩)
        have hcov := gap_lt_of_lt hwhome hPhl (get_lt hp) hPnl hgap hlt
        obtain ⟨z, hz, hsub⟩ := h.earlier p w Pn hph hp hPnl hPn hcov
        rw [hy] at hz
        have hzy : z = y := (Option.some.inj hz).symm
        subst hzy
        exact ⟨z, by simp [hqh], hsub⟩
      · obtain ⟨z, hz, hsub⟩ := h.earlier p w q hph hp hq hqh hgap
        exact ⟨z, by simp [hqh, hz], hsub⟩
  · intro p w hpn hp _
    simp only [position_write, gap_write, hget, ← hPn_def] at hpn hp ⊢
    have hpl : p < ix.size := by
      by_cases hph : p = Ph
      · rw [hph]; exact hPhl
      · simp only [hph, if_false] at hp; exact get_lt hp
    have : ix.gap Pn p ≠ 0 := fun e => hpn ((gap_eq_zero hPnl hpl).1 e).symm
    omega
  · refine ⟨f, Nat.lt_of_le_of_ne hnf (fun e => ?_), by rwa [size_write], ?_⟩
    · rw [← e, hy] at hfree
      cases hfree
    · have hfh : ix.position s f ≠ Ph := (position_ne hs (by have := h.hole_lt; omega) hfn).symm
      simp [position_write, hget, hfh, hfree]

/-- At a free bucket the walk ends: the hole is emptied, and no stretch
covers it. -/
theorem Shifting.finish (h : ix.Shifting homeOf rest s hole next)
    (hfree : ix.get (ix.position s next) = none) :
    (ix.write (ix.position s hole) none).Arranged homeOf rest := by
  obtain ⟨f, hnf, hfn, -⟩ := h.ahead
  have hs := h.start_lt
  have hn : 0 < ix.size := by omega
  have hnext : next < ix.size := by omega
  set Ph := ix.position s hole with hPh_def
  set Pn := ix.position s next with hPn_def
  have hPn : Pn ≠ Ph := (position_ne hs h.hole_lt hnext).symm
  have hPhl : Ph < ix.size := position_lt hn
  have hPnl : Pn < ix.size := position_lt hn
  have hgapn : ix.gap Ph Pn = next - hole := gap_position_position hs (Nat.le_of_lt h.hole_lt) hnext
  have hget : ∀ q, (ix.write Ph none).get q = if q = Ph then none else ix.get q := by
    intro q
    rw [get_write]
    by_cases hq : q = Ph
    · simp [hq, hPhl]
    · simp [hq, Ne.symm hq]
  refine ⟨h.nodup, fun z hz => by rw [size_write]; exact h.home_lt z hz, ?_, ?_, ?_⟩
  · intro z
    rw [h.mem_iff z]
    simp only [hget]
    constructor
    · rintro ⟨p, hph, hp⟩
      have hph' : p ≠ Ph := hph
      exact ⟨p, by simp [hph', hp]⟩
    · rintro ⟨p, hp⟩
      by_cases hph : p = Ph
      · simp [hph] at hp
      · simp only [hph, if_false] at hp
        exact ⟨p, hph, hp⟩
  · intro p q z hp hq
    simp only [hget] at hp hq
    split at hp
    · cases hp
    · split at hq
      · cases hq
      · exact h.unique p q z ‹_› ‹_› hp hq
  · intro p w q hp hq hgap
    simp only [gap_write, size_write, hget] at hp hq hgap ⊢
    split at hp
    · cases hp
    · rename_i hph
      by_cases hqh : q = Ph
      · -- a stretch over the hole would run on over the free bucket at the walk
        rw [hqh] at hgap
        have hold : next - hole ≤ ix.gap Ph p := h.past p w hph hp hgap
        have hpn : p ≠ Pn := fun e => by rw [e, hfree] at hp; cases hp
        have hlt : ix.gap Ph Pn < ix.gap Ph p := by
          refine Nat.lt_of_le_of_ne (by omega) (fun e => hpn ?_)
          exact eq_of_gap_eq hPhl (get_lt hp) hPnl e.symm
        have hwhome := h.home_lt w ((h.mem_iff w).2 ⟨p, hph, hp⟩)
        have hcov := gap_lt_of_lt hwhome hPhl (get_lt hp) hPnl hgap hlt
        obtain ⟨z, hz, -⟩ := h.earlier p w Pn hph hp hPnl hPn hcov
        rw [hfree] at hz
        cases hz
      · obtain ⟨z, hz, hsub⟩ := h.earlier p w q hph hp hq hqh hgap
        exact ⟨z, by simp [hqh, hz], hsub⟩

/-- The walk of the backward shift, run to a free bucket. -/
theorem Shifting.shift : ∀ (fuel : Nat) (ix : Index) (hole next : Nat),
    ix.Shifting homeOf rest s hole next → ix.size < next + fuel →
      (ix.shift homeOf s hole next fuel).Arranged homeOf rest
  | 0, ix, hole, next, h, hfuel => by
    obtain ⟨f, hnf, hfn, -⟩ := h.ahead
    omega
  | fuel + 1, ix, hole, next, h, hfuel => by
    simp only [Index.shift]
    cases hget : ix.get (ix.position s next) with
    | none => exact h.finish hget
    | some y =>
      dsimp only
      split
      · rename_i hd
        exact Shifting.shift fuel _ next (next + 1) (h.move hget hd) (by rw [size_write]; omega)
      · rename_i hd
        exact Shifting.shift fuel ix hole (next + 1) (h.skip hget (Nat.lt_of_not_le hd)) (by omega)

/-- Backward-shift deletion of the slot `x` leaves the layout of the order
without `x`. -/
theorem Arranged.removeAt (h : ix.Arranged homeOf order) {start depth x : Nat}
    (hx : ix.get (ix.position start depth) = some x) (hlen : order.length < ix.size) :
    (ix.removeAt homeOf start depth).Arranged homeOf (order.erase x) := by
  have hn : 0 < ix.size := by have := get_lt hx; omega
  rw [removeAt_eq_shift]
  exact Shifting.shift ix.size ix 0 1 (Shifting.start h (position_lt hn) hx hlen) (by omega)

/-- Deleting a slot from the canonical layout by backward shift gives the
canonical layout of the order without it, as if the slot had never been
placed. -/
theorem removeAt_canonical {n : Nat} (homeOf : Nat → Nat) {order : List Nat} (hnd : order.Nodup)
    (hhome : ∀ y ∈ order, homeOf y < n) (hlen : order.length < n) {start depth x : Nat}
    (hx : (canonical n homeOf order).get ((canonical n homeOf order).position start depth) = some x) :
    (canonical n homeOf order).removeAt homeOf start depth = canonical n homeOf (order.erase x) := by
  have ha := arranged_canonical homeOf hnd hhome (Nat.le_of_lt hlen)
  have hr := ha.removeAt hx (by rwa [size_canonical])
  rw [hr.eq_canonical, size_removeAt, size_canonical]

end Index

end ShardCache
