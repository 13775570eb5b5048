import ShardCache.Index
/-!
# Positions on the ring of buckets, and what a probe finds

The bucket index is a ring of `n` buckets. `Index.gap a b` is how far `b`
lies after `a` going forwards, the displacement that the backward shift
compares with the distance to its hole. Every ring fact the layout proofs
need comes from `gap_eq`: on positions below `n` a gap is a plain
difference, or that difference plus `n`.

Results:
* `gap_add_of_lt`, `gap_lt_of_lt`: a position `b` inside the stretch from `a`
  to `c` cuts it into two gaps that add up, and what lies between `b` and `c`
  lies between `a` and `c`.
* `probe_hit`, `probe_vacant`, `probe_full`: a probe stops at the first
  bucket from its start that is free or holds a target, having passed only
  occupied buckets that hold none (`Passes`), and it only goes round the
  whole ring when every bucket is occupied.
* `ext_get`, `mem_slots`, `slots_eq`: an index is determined by its buckets,
  and `slots` lists the occupied ones in position order.
-/
namespace ShardCache

namespace Index

@[simp] theorem gap_write (ix : Index) (p : Nat) (c : Option Nat) (a b : Nat) :
    (ix.write p c).gap a b = ix.gap a b := by
  simp [gap]

@[simp] theorem position_write (ix : Index) (p : Nat) (c : Option Nat) (a j : Nat) :
    (ix.write p c).position a j = ix.position a j := by
  simp [position]

theorem mod_of_lt_add {x n : Nat} (h : x < n + n) : x % n = if x < n then x else x - n := by
  split
  · exact Nat.mod_eq_of_lt ‹_›
  · rw [Nat.mod_eq_sub_mod (by omega), Nat.mod_eq_of_lt (by omega)]

section Ring

variable {ix : Index} {a b c j : Nat}

theorem gap_eq (ha : a < ix.size) (hb : b < ix.size) :
    ix.gap a b = if a ≤ b then b - a else b + ix.size - a := by
  unfold gap
  rw [mod_of_lt_add (by omega)]
  split <;> split <;> omega

theorem position_eq (ha : a < ix.size) (hj : j < ix.size) :
    ix.position a j = if a + j < ix.size then a + j else a + j - ix.size := by
  unfold position
  exact mod_of_lt_add (by omega)

theorem gap_lt (hn : 0 < ix.size) : ix.gap a b < ix.size := Nat.mod_lt _ hn

theorem position_lt (hn : 0 < ix.size) : ix.position a j < ix.size := Nat.mod_lt _ hn

theorem position_gap (ha : a < ix.size) (hb : b < ix.size) : ix.position a (ix.gap a b) = b := by
  have hg : ix.gap a b < ix.size := gap_lt (by omega)
  rw [position_eq ha hg, gap_eq ha hb]
  split <;> split <;> omega

theorem gap_position (ha : a < ix.size) (hj : j < ix.size) : ix.gap a (ix.position a j) = j := by
  have hp : ix.position a j < ix.size := position_lt (by omega)
  rw [gap_eq ha hp, position_eq ha hj]
  split <;> split <;> omega

theorem position_zero (ha : a < ix.size) : ix.position a 0 = a := by
  simp [position, Nat.mod_eq_of_lt ha]

theorem gap_self (a : Nat) : ix.gap a a = 0 := by
  simp [gap]

theorem eq_of_gap_eq (ha : a < ix.size) (hb : b < ix.size) (hc : c < ix.size)
    (h : ix.gap a b = ix.gap a c) : b = c := by
  rw [← position_gap ha hb, h, position_gap ha hc]

theorem gap_eq_zero (ha : a < ix.size) (hb : b < ix.size) : ix.gap a b = 0 ↔ a = b := by
  rw [gap_eq ha hb]
  split <;> omega

/-- Positions at offsets less than `n` apart are different buckets. -/
theorem position_ne (ha : a < ix.size) {i k : Nat} (hik : i < k) (hk : k < ix.size) :
    ix.position a i ≠ ix.position a k := by
  rw [position_eq ha (by omega), position_eq ha hk]
  split <;> split <;> omega

/-- The gap between two offsets from one start is their difference. -/
theorem gap_position_position (ha : a < ix.size) {i k : Nat} (hik : i ≤ k) (hk : k < ix.size) :
    ix.gap (ix.position a i) (ix.position a k) = k - i := by
  have hp : ix.position a i < ix.size := position_lt (by omega)
  have hq : ix.position a k < ix.size := position_lt (by omega)
  rw [gap_eq hp hq, position_eq ha (by omega), position_eq ha hk]
  split <;> split <;> split <;> omega

/-- A position `b` strictly inside the stretch from `a` to `c` cuts it in two. -/
theorem gap_add_of_lt (ha : a < ix.size) (hb : b < ix.size) (hc : c < ix.size)
    (h : ix.gap a b < ix.gap a c) : ix.gap a c = ix.gap a b + ix.gap b c := by
  rw [gap_eq ha hb, gap_eq ha hc] at h
  rw [gap_eq ha hb, gap_eq ha hc, gap_eq hb hc]
  by_cases hab : a ≤ b <;> by_cases hac : a ≤ c <;> by_cases hbc : b ≤ c <;>
    simp only [hab, hac, hbc, if_true, if_false] at h ⊢ <;> omega

/-- The gaps from `a` to `b` and from `b` to `c` add up to the gap from `a` to
`c`, or to one more turn of the ring. -/
theorem gap_add_gap (ha : a < ix.size) (hb : b < ix.size) (hc : c < ix.size) :
    ix.gap a b + ix.gap b c = ix.gap a c ∨ ix.gap a b + ix.gap b c = ix.gap a c + ix.size := by
  rw [gap_eq ha hb, gap_eq hb hc, gap_eq ha hc]
  split <;> split <;> split <;> omega

/-- What lies between `b` and `c`, for `b` between `a` and `c`, lies between
`a` and `c`. -/
theorem gap_lt_of_lt {x : Nat} (ha : a < ix.size) (hb : b < ix.size) (hc : c < ix.size)
    (hx : x < ix.size) (hab : ix.gap a b < ix.gap a c) (hbx : ix.gap b x < ix.gap b c) :
    ix.gap a x < ix.gap a c := by
  have h1 := gap_add_of_lt ha hb hc hab
  rcases gap_add_gap ha hb hx with h2 | h2 <;> omega

end Ring

/-! ## Buckets and slots -/

theorem get_lt {ix : Index} {p y : Nat} (h : ix.get p = some y) : p < ix.size := by
  unfold get at h
  rcases Nat.lt_or_ge p ix.size with hp | hp
  · exact hp
  · rw [Array.getElem?_eq_none (by simpa [size] using hp)] at h
    cases h

/-- Two indexes with the same buckets are equal. -/
theorem ext_get {ix ix' : Index} (hs : ix.size = ix'.size) (h : ∀ p, ix.get p = ix'.get p) :
    ix = ix' := by
  cases ix with
  | mk cells =>
    cases ix' with
    | mk cells' =>
      congr 1
      apply Array.ext hs
      intro i hi hi'
      have := h i
      simp only [get, Array.getElem?_eq_getElem hi, Array.getElem?_eq_getElem hi',
        Option.join_some] at this
      exact this

theorem get_write_self {ix : Index} {p : Nat} (hp : p < ix.size) (c : Option Nat) :
    (ix.write p c).get p = c := by
  rw [get_write]
  simp [hp]

theorem get_write_ne {ix : Index} {p q : Nat} (hpq : p ≠ q) (c : Option Nat) :
    (ix.write p c).get q = ix.get q := by
  rw [get_write]
  simp [hpq]

theorem filterMap_id_eq_filterMap_range (l : List (Option Nat)) :
    l.filterMap id = (List.range l.length).filterMap (fun p => l[p]?.join) := by
  induction l with
  | nil => rfl
  | cons a l ih =>
    rw [List.length_cons, List.range_succ_eq_map]
    conv => rhs; rw [List.filterMap_cons, List.filterMap_map]
    -- position `p + 1` of `a :: l` is position `p` of `l`
    have hshift : (fun p => (a :: l)[p]?.join) ∘ Nat.succ = fun p => l[p]?.join := rfl
    rw [hshift, ← ih]
    cases a <;> rfl

/-- The occupied buckets' slots, read position by position. -/
theorem slots_eq (ix : Index) : ix.slots = (List.range ix.size).filterMap ix.get := by
  unfold slots
  rw [filterMap_id_eq_filterMap_range]
  simp only [Array.length_toList, Array.getElem?_toList, size]
  rfl

theorem mem_slots {ix : Index} {y : Nat} : y ∈ ix.slots ↔ ∃ p, ix.get p = some y := by
  rw [slots_eq, List.mem_filterMap]
  constructor
  · rintro ⟨p, -, hp⟩
    exact ⟨p, hp⟩
  · rintro ⟨p, hp⟩
    exact ⟨p, List.mem_range.2 (get_lt hp), hp⟩

/-! ## Probes -/

/-- The probe from `start` passes over the buckets at offsets `depth` to `d`:
each holds a slot that is not a target. -/
def Passes (ix : Index) (start : Nat) (target : Nat → Bool) (depth d : Nat) : Prop :=
  ∀ j, depth ≤ j → j < d → ∃ y, ix.get (ix.position start j) = some y ∧ target y = false

theorem passes_succ {ix : Index} {start : Nat} {target : Nat → Bool} {depth d y : Nat}
    (hp : ix.Passes start target (depth + 1) d) (hy : ix.get (ix.position start depth) = some y)
    (ht : target y = false) : ix.Passes start target depth d := by
  intro j hj hjd
  rcases Nat.lt_or_ge j (depth + 1) with h | h
  · obtain rfl : j = depth := by omega
    exact ⟨y, hy, ht⟩
  · exact hp j h hjd

/-- Where `probeFrom` stops and what it passed over on the way. -/
theorem probeFrom_spec (ix : Index) (start : Nat) (target : Nat → Bool) :
    ∀ (depth fuel : Nat),
      match ix.probeFrom start target depth fuel with
      | .hit d y => depth ≤ d ∧ d < depth + fuel ∧ ix.get (ix.position start d) = some y ∧
          target y = true ∧ ix.Passes start target depth d
      | .vacant d => depth ≤ d ∧ d < depth + fuel ∧ ix.get (ix.position start d) = none ∧
          ix.Passes start target depth d
      | .full => ix.Passes start target depth (depth + fuel)
  | depth, 0 => by
    simp only [probeFrom, Nat.add_zero]
    intro j hj hjd
    omega
  | depth, fuel + 1 => by
    have ih := probeFrom_spec ix start target (depth + 1) fuel
    unfold probeFrom
    cases hget : ix.get (ix.position start depth) with
    | none => exact ⟨Nat.le_refl _, by omega, hget, fun j hj hjd => by omega⟩
    | some y =>
      dsimp only
      cases ht : target y with
      | true => exact ⟨Nat.le_refl _, by omega, hget, ht, fun j hj hjd => by omega⟩
      | false =>
        simp only [Bool.false_eq_true, if_false]
        cases hr : ix.probeFrom start target (depth + 1) fuel with
        | hit d z =>
          rw [hr] at ih
          obtain ⟨h1, h2, h3, h4, h5⟩ := ih
          exact ⟨by omega, by omega, h3, h4, passes_succ h5 hget ht⟩
        | vacant d =>
          rw [hr] at ih
          obtain ⟨h1, h2, h3, h4⟩ := ih
          exact ⟨by omega, by omega, h3, passes_succ h4 hget ht⟩
        | full =>
          rw [hr] at ih
          dsimp only
          exact passes_succ (by rwa [Nat.add_assoc, Nat.add_comm 1 fuel] at ih) hget ht

section Probe

variable {ix : Index} {start : Nat} {target : Nat → Bool}

theorem probe_hit {d y : Nat} (h : ix.probe start target = .hit d y) :
    d < ix.size ∧ ix.get (ix.position start d) = some y ∧ target y = true ∧
      ix.Passes start target 0 d := by
  have hs := probeFrom_spec ix start target 0 ix.size
  unfold probe at h
  rw [h] at hs
  obtain ⟨-, h2, h3, h4, h5⟩ := hs
  exact ⟨by omega, h3, h4, h5⟩

theorem probe_vacant {d : Nat} (h : ix.probe start target = .vacant d) :
    d < ix.size ∧ ix.get (ix.position start d) = none ∧ ix.Passes start target 0 d := by
  have hs := probeFrom_spec ix start target 0 ix.size
  unfold probe at h
  rw [h] at hs
  obtain ⟨-, h2, h3, h4⟩ := hs
  exact ⟨by omega, h3, h4⟩

theorem probe_full_passes (h : ix.probe start target = .full) :
    ix.Passes start target 0 ix.size := by
  have hs := probeFrom_spec ix start target 0 ix.size
  unfold probe at h
  rw [h] at hs
  simpa using hs

/-- Probes for targets that agree on every slot in the index stop at the
same bucket. -/
theorem probeFrom_congr {target' : Nat → Bool} (h : ∀ p y, ix.get p = some y → target y = target' y) :
    ∀ depth fuel, ix.probeFrom start target depth fuel = ix.probeFrom start target' depth fuel
  | _, 0 => rfl
  | depth, fuel + 1 => by
    unfold probeFrom
    cases hget : ix.get (ix.position start depth) with
    | none => rfl
    | some y =>
      dsimp only
      rw [h _ y hget, probeFrom_congr h (depth + 1) fuel]

theorem probe_congr {target' : Nat → Bool} (h : ∀ p y, ix.get p = some y → target y = target' y) :
    ix.probe start target = ix.probe start target' :=
  probeFrom_congr h 0 ix.size

/-- A probe goes round the whole ring only when no bucket is free. -/
theorem probe_full (hs : start < ix.size) (h : ix.probe start target = .full) (p : Nat)
    (hp : p < ix.size) : ∃ y, ix.get p = some y := by
  obtain ⟨y, hy, -⟩ := probe_full_passes h (ix.gap start p) (Nat.zero_le _) (gap_lt (by omega))
  rw [position_gap hs hp] at hy
  exact ⟨y, hy⟩

/-- A probe from `start` stops at the free bucket `p` when every bucket
before it holds a slot that is not a target. -/
theorem probe_eq_vacant {p : Nat} (hs : start < ix.size) (hp : p < ix.size) (hfree : ix.get p = none)
    (hbefore : ∀ q < ix.size, ix.gap start q < ix.gap start p →
      ∃ z, ix.get q = some z ∧ target z = false) :
    ix.probe start target = .vacant (ix.gap start p) := by
  have hn : 0 < ix.size := by omega
  have hpos := position_gap hs hp
  cases h : ix.probe start target with
  | hit d y =>
    obtain ⟨hd, hy, ht, hpass⟩ := probe_hit h
    rcases Nat.lt_trichotomy d (ix.gap start p) with hlt | heq | hgt
    · obtain ⟨z, hz, hzt⟩ := hbefore _ (position_lt hn) (by rwa [gap_position hs hd])
      rw [hy] at hz
      cases hz
      rw [ht] at hzt
      cases hzt
    · rw [heq, hpos, hfree] at hy
      cases hy
    · obtain ⟨z, hz, -⟩ := hpass _ (Nat.zero_le _) hgt
      rw [hpos, hfree] at hz
      cases hz
  | vacant d =>
    obtain ⟨hd, hfree', hpass⟩ := probe_vacant h
    rcases Nat.lt_trichotomy d (ix.gap start p) with hlt | heq | hgt
    · obtain ⟨z, hz, -⟩ := hbefore _ (position_lt hn) (by rwa [gap_position hs hd])
      rw [hfree'] at hz
      cases hz
    · rw [heq]
    · obtain ⟨z, hz, -⟩ := hpass _ (Nat.zero_le _) hgt
      rw [hpos, hfree] at hz
      cases hz
  | full =>
    obtain ⟨y, hy⟩ := probe_full hs h p hp
    rw [hfree] at hy
    cases hy

/-- A probe from `start` stops at the bucket `p` holding a target when every
bucket before it holds a slot that is not one. -/
theorem probe_eq_hit {p y : Nat} (hs : start < ix.size) (hp : ix.get p = some y)
    (ht : target y = true)
    (hbefore : ∀ q < ix.size, ix.gap start q < ix.gap start p →
      ∃ z, ix.get q = some z ∧ target z = false) :
    ix.probe start target = .hit (ix.gap start p) y := by
  have hpl := get_lt hp
  have hn : 0 < ix.size := by omega
  have hpos := position_gap hs hpl
  cases h : ix.probe start target with
  | hit d y' =>
    obtain ⟨hd, hy, ht', hpass⟩ := probe_hit h
    rcases Nat.lt_trichotomy d (ix.gap start p) with hlt | heq | hgt
    · obtain ⟨z, hz, hzt⟩ := hbefore _ (position_lt hn) (by rwa [gap_position hs hd])
      rw [hy] at hz
      cases hz
      rw [ht'] at hzt
      cases hzt
    · rw [heq, hpos, hp] at hy
      cases hy
      rw [heq]
    · obtain ⟨z, hz, hzt⟩ := hpass _ (Nat.zero_le _) hgt
      rw [hpos, hp] at hz
      cases hz
      rw [ht] at hzt
      cases hzt
  | vacant d =>
    obtain ⟨hd, hfree, hpass⟩ := probe_vacant h
    rcases Nat.lt_trichotomy d (ix.gap start p) with hlt | heq | hgt
    · obtain ⟨z, hz, -⟩ := hbefore _ (position_lt hn) (by rwa [gap_position hs hd])
      rw [hfree] at hz
      cases hz
    · rw [heq, hpos, hp] at hfree
      cases hfree
    · obtain ⟨z, hz, hzt⟩ := hpass _ (Nat.zero_le _) hgt
      rw [hpos, hp] at hz
      cases hz
      rw [ht] at hzt
      cases hzt
  | full =>
    obtain ⟨z, hz, hzt⟩ := probe_full_passes h (ix.gap start p) (Nat.zero_le _) (gap_lt hn)
    rw [hpos, hp] at hz
    cases hz
    rw [ht] at hzt
    cases hzt

end Probe

end Index

end ShardCache
