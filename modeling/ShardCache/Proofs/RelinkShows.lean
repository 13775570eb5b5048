import Mathlib
import ShardCache.Concurrent.RelinkHolds
import ShardCache.Proofs.RelinkLists
/-!
# Taking and putting back sides

Every access of a relinking call that writes a pair does one of four things
to the held sides (`Shows`):

* `Shows.grab`: a compare-exchange takes a side that read another word than
  `locked`; the side then stands for the word it had.
* `Shows.release`: a store puts its word back into a side the call holds.
* `Shows.restate`: at a commit, the sides the committing call holds start to
  stand for other words, and so do the pairs the system stands for; nothing
  physical changes.
* `Shows.write`: the owner of a slot no call holds rewrites its pair.

`Shows.locked_iff` reads the holds off the arena: a side reads `locked`
exactly when one thread holds it.
-/
namespace ShardCache.Relink

@[simp] theorem Hold.cell_mk (y : UInt32) (d : Side) (v : UInt32) :
    (⟨y, d, v⟩ : Hold).cell = (y, d) := rfl

theorem Hold.slot_side_eq {h h' : Hold} (hc : h.cell = h'.cell) :
    h.slot = h'.slot ∧ h.side = h'.side := by
  simpa [Hold.cell] using hc

theorem Hold.cell_eq_iff {h : Hold} {y : UInt32} {d : Side} :
    h.cell = (y, d) ↔ h.slot = y ∧ h.side = d := by
  simp [Hold.cell]

theorem mem_pair {x : UInt32} {w : Link} {h : Hold} :
    h ∈ Hold.pair x w ↔ h = ⟨x, .pred, w.pred⟩ ∨ h = ⟨x, .succ, w.succ⟩ := by
  simp [Hold.pair]

/-! ## One side of one pair -/

section Cells

variable (link : UInt32 → Link)

theorem side_setLink (y : UInt32) (w : Link) (z : UInt32) (e : Side) :
    (setLink link y w z).side e = if z = y then w.side e else (link z).side e := by
  unfold setLink
  split_ifs <;> rfl

/-- Writing one side of a pair changes that side only. -/
theorem side_setLink_setSide (y : UInt32) (d : Side) (v : UInt32) (z : UInt32) (e : Side) :
    (setLink link y ((link y).setSide d v) z).side e =
      if (z, e) = (y, d) then v else (link z).side e := by
  rw [side_setLink]
  by_cases hz : z = y
  · subst hz
    by_cases he : e = d
    · simp [he]
    · simp [Link.side_setSide, he]
  · simp [hz]

theorem side_setLink_hold (y : UInt32) (d : Side) (v : UInt32) {h : Hold}
    (hne : h.cell ≠ (y, d)) :
    (setLink link y ((link y).setSide d v) h.slot).side h.side = (link h.slot).side h.side := by
  rw [side_setLink_setSide, if_neg (show (h.slot, h.side) ≠ (y, d) from hne)]

theorem setLink_setLink (y : UInt32) (w w' : Link) :
    setLink (setLink link y w) y w' = setLink link y w' := by
  funext z
  by_cases hz : z = y
  · subst hz
    simp
  · simp [setLink_of_ne _ _ hz]

end Cells

/-! ## The four moves -/

section Moves

variable {link : UInt32 → Link} {holds : Nat → List Hold} {W : UInt32 → Link}

/-- A side that does not read `locked` is held by no call. -/
theorem Shows.not_held (hs : Shows link holds W) {y : UInt32} {d : Side}
    (hy : (link y).side d ≠ locked) : ∀ t, ∀ h ∈ holds t, h.cell ≠ (y, d) := by
  intro t h hh hc
  obtain ⟨rfl, rfl⟩ := Hold.cell_eq_iff.1 hc
  exact hy (hs.reads t h hh)

theorem Shows.eq_of_unlocked (hs : Shows link holds W) {y : UInt32} {d : Side}
    (hy : (link y).side d ≠ locked) : (W y).side d = (link y).side d :=
  (hs.free y d (hs.not_held hy)).symm

/-- The pair a call took both sides of stands for the pair its holds name. -/
theorem Shows.eq_of_pair (hs : Shows link holds W) {t : Nat} {x : UInt32} {w : Link}
    (hp : Hold.pair x w ⊆ holds t) : W x = w :=
  Link.eq_of_side fun d => by
    cases d
    · exact hs.value t ⟨x, .pred, w.pred⟩ (hp (by simp [Hold.pair]))
    · exact hs.value t ⟨x, .succ, w.succ⟩ (hp (by simp [Hold.pair]))

/-- A held side is held by one thread only. -/
theorem Shows.unique (hs : Shows link holds W) {t u : Nat} {h h' : Hold} (hh : h ∈ holds t)
    (hh' : h' ∈ holds u) (hc : h.cell = h'.cell) : t = u := by
  by_contra hne
  exact hs.apart t u hne h hh h' hh' hc

/-- A compare-exchange takes side `d` of `y`, which read another word than `locked`. -/
theorem Shows.grab (hs : Shows link holds W) (t : Nat) (y : UInt32) (d : Side)
    (hy : (link y).side d ≠ locked) :
    Shows (setLink link y ((link y).setSide d locked))
      (Function.update holds t (⟨y, d, (link y).side d⟩ :: holds t)) W := by
  have hfree := hs.not_held hy
  refine ⟨?_, ?_, ?_, ?_, ?_⟩
  · intro u h hh
    by_cases hu : u = t
    · subst hu
      rw [Function.update_self, List.mem_cons] at hh
      rcases hh with rfl | hh
      · simp
      · rw [side_setLink_hold _ _ _ _ (hfree u h hh)]
        exact hs.reads u h hh
    · rw [Function.update_of_ne hu] at hh
      rw [side_setLink_hold _ _ _ _ (hfree u h hh)]
      exact hs.reads u h hh
  · intro u h hh
    by_cases hu : u = t
    · subst hu
      rw [Function.update_self, List.mem_cons] at hh
      rcases hh with rfl | hh
      · exact hs.eq_of_unlocked hy
      · exact hs.value u h hh
    · rw [Function.update_of_ne hu] at hh
      exact hs.value u h hh
  · intro u
    by_cases hu : u = t
    · subst hu
      rw [Function.update_self, List.map_cons, List.nodup_cons]
      refine ⟨fun hm => ?_, hs.nodup u⟩
      obtain ⟨h, hh, hc⟩ := List.mem_map.1 hm
      exact hfree u h hh hc
    · rw [Function.update_of_ne hu]
      exact hs.nodup u
  · intro u v huv h hh h' hh'
    by_cases hu : u = t
    · subst hu
      rw [Function.update_self, List.mem_cons] at hh
      rw [Function.update_of_ne (Ne.symm huv)] at hh'
      rcases hh with rfl | hh
      · exact fun hc => hfree v h' hh' hc.symm
      · exact hs.apart u v huv h hh h' hh'
    · rw [Function.update_of_ne hu] at hh
      by_cases hv : v = t
      · subst hv
        rw [Function.update_self, List.mem_cons] at hh'
        rcases hh' with rfl | hh'
        · exact hfree u h hh
        · exact hs.apart u v huv h hh h' hh'
      · rw [Function.update_of_ne hv] at hh'
        exact hs.apart u v huv h hh h' hh'
  · intro z e hz
    rw [side_setLink_setSide]
    have hne : (z, e) ≠ (y, d) := fun h =>
      hz t ⟨y, d, (link y).side d⟩ (by simp [Function.update_self]) (by simp [h])
    rw [if_neg hne]
    refine hs.free z e fun u h hh => ?_
    by_cases hu : u = t
    · subst hu
      exact hz u h (by simp [hh])
    · exact hz u h (by rw [Function.update_of_ne hu]; exact hh)

/-- A store puts the word of a hold back into its side. -/
theorem Shows.release (hs : Shows link holds W) {t : Nat} {y : UInt32} {d : Side} {v : UInt32}
    {rest : List Hold} (ht : holds t = ⟨y, d, v⟩ :: rest) :
    Shows (setLink link y ((link y).setSide d v)) (Function.update holds t rest) W := by
  have hmem : (⟨y, d, v⟩ : Hold) ∈ holds t := by simp [ht]
  have hrest : ∀ h ∈ rest, h.cell ≠ (y, d) := by
    have := hs.nodup t
    rw [ht, List.map_cons, List.nodup_cons] at this
    exact fun h hh hc => this.1 (List.mem_map.2 ⟨h, hh, hc⟩)
  have hothers : ∀ u, u ≠ t → ∀ h ∈ holds u, h.cell ≠ (y, d) :=
    fun u hu h hh hc => hs.apart t u (Ne.symm hu) _ hmem h hh (by simp [hc])
  have hsub : ∀ u, ∀ h ∈ Function.update holds t rest u, h ∈ holds u ∧ h.cell ≠ (y, d) := by
    intro u h hh
    by_cases hu : u = t
    · subst hu
      rw [Function.update_self] at hh
      exact ⟨by simp [ht, hh], hrest h hh⟩
    · rw [Function.update_of_ne hu] at hh
      exact ⟨hh, hothers u hu h hh⟩
  refine ⟨?_, ?_, ?_, ?_, ?_⟩
  · intro u h hh
    obtain ⟨hh, hne⟩ := hsub u h hh
    rw [side_setLink_hold _ _ _ _ hne]
    exact hs.reads u h hh
  · intro u h hh
    exact hs.value u h (hsub u h hh).1
  · intro u
    by_cases hu : u = t
    · subst hu
      have := hs.nodup u
      rw [ht, List.map_cons, List.nodup_cons] at this
      rw [Function.update_self]
      exact this.2
    · rw [Function.update_of_ne hu]
      exact hs.nodup u
  · intro u u' hne h hh h' hh'
    exact hs.apart u u' hne h (hsub u h hh).1 h' (hsub u' h' hh').1
  · intro z e hz
    rw [side_setLink_setSide]
    by_cases hc : (z, e) = (y, d)
    · rw [if_pos hc]
      obtain ⟨rfl, rfl⟩ := Prod.mk.inj hc
      exact (hs.value t _ hmem).symm
    · rw [if_neg hc]
      refine hs.free z e fun u h hh => ?_
      by_cases hu : u = t
      · subst hu
        rw [ht, List.mem_cons] at hh
        rcases hh with rfl | hh
        · exact fun h' => hc h'.symm
        · exact hz u h (by rw [Function.update_self]; exact hh)
      · exact hz u h (by rw [Function.update_of_ne hu]; exact hh)

/-- A compare-exchange takes both sides of `x`, neither of which read `locked`. -/
theorem Shows.grabPair (hs : Shows link holds W) {t : Nat} (ht : holds t = []) {x : UInt32}
    (hx : (link x).hasLockedSide = false) :
    Shows (setLink link x Link.held) (Function.update holds t (Hold.pair x (link x))) W := by
  have h1 := hs.grab t x .succ (Link.side_ne_locked hx .succ)
  have h2 := h1.grab t x .pred (by simpa [Link.setSide] using Link.side_ne_locked hx .pred)
  rw [setLink_setLink, Function.update_idem, Function.update_self, ht, setLink_self] at h2
  exact h2

/-- A store puts both words of the pair `w` back into the two held sides of `x`. -/
theorem Shows.releasePair (hs : Shows link holds W) {t : Nat} {x : UInt32} {w : Link}
    (ht : holds t = Hold.pair x w) :
    Shows (setLink link x w) (Function.update holds t []) W := by
  have h1 := hs.release ht
  have h2 := h1.release (Function.update_self t _ holds)
  rw [setLink_setLink, Function.update_idem, setLink_self] at h2
  exact h2

/-- At a commit the sides held by `t` start to stand for the words of `H'`, and the system
for the pairs `W'`, which differ from `W` at sides `t` holds only. -/
theorem Shows.restate (hs : Shows link holds W) {t : Nat} {H' : List Hold}
    {W' : UInt32 → Link} (hperm : (H'.map Hold.cell).Perm ((holds t).map Hold.cell))
    (hval : ∀ h ∈ H', (W' h.slot).side h.side = h.value)
    (hout : ∀ y d, (∀ h ∈ holds t, h.cell ≠ (y, d)) → (W' y).side d = (W y).side d) :
    Shows link (Function.update holds t H') W' := by
  have hcell : ∀ h ∈ H', ∃ h₀ ∈ holds t, h₀.cell = h.cell := fun h hh =>
    List.mem_map.1 (hperm.subset (List.mem_map_of_mem hh))
  have hothers : ∀ u, u ≠ t → ∀ h ∈ holds u, (W' h.slot).side h.side = h.value := by
    intro u hu h hh
    rw [hout _ _ fun h₀ hh₀ hc => hs.apart t u (Ne.symm hu) h₀ hh₀ h hh hc]
    exact hs.value u h hh
  refine ⟨?_, ?_, ?_, ?_, ?_⟩
  · intro u h hh
    by_cases hu : u = t
    · subst hu
      rw [Function.update_self] at hh
      obtain ⟨h₀, hh₀, hc⟩ := hcell h hh
      obtain ⟨hs₁, hs₂⟩ := Hold.slot_side_eq hc
      rw [← hs₁, ← hs₂]
      exact hs.reads u h₀ hh₀
    · rw [Function.update_of_ne hu] at hh
      exact hs.reads u h hh
  · intro u h hh
    by_cases hu : u = t
    · subst hu
      rw [Function.update_self] at hh
      exact hval h hh
    · rw [Function.update_of_ne hu] at hh
      exact hothers u hu h hh
  · intro u
    by_cases hu : u = t
    · subst hu
      rw [Function.update_self]
      exact hperm.nodup_iff.2 (hs.nodup u)
    · rw [Function.update_of_ne hu]
      exact hs.nodup u
  · intro u v huv h hh h' hh'
    by_cases hu : u = t
    · subst hu
      rw [Function.update_self] at hh
      rw [Function.update_of_ne (Ne.symm huv)] at hh'
      obtain ⟨h₀, hh₀, hc⟩ := hcell h hh
      rw [← hc]
      exact hs.apart u v huv h₀ hh₀ h' hh'
    · rw [Function.update_of_ne hu] at hh
      by_cases hv : v = t
      · subst hv
        rw [Function.update_self] at hh'
        obtain ⟨h₀, hh₀, hc⟩ := hcell h' hh'
        rw [← hc]
        exact hs.apart u v huv h hh h₀ hh₀
      · rw [Function.update_of_ne hv] at hh'
        exact hs.apart u v huv h hh h' hh'
  · intro y d hz
    have hnot : ∀ h ∈ holds t, h.cell ≠ (y, d) := by
      intro h hh hc
      obtain ⟨h', hh', hc'⟩ := List.mem_map.1 (hperm.symm.subset (List.mem_map_of_mem hh))
      exact hz t h' (by rw [Function.update_self]; exact hh') (hc'.trans hc)
    rw [hout y d hnot]
    refine hs.free y d fun u h hh => ?_
    by_cases hu : u = t
    · subst hu
      exact hnot h hh
    · exact hz u h (by rw [Function.update_of_ne hu]; exact hh)

/-- The owner of a slot no call holds rewrites its pair. -/
theorem Shows.write (hs : Shows link holds W) {y : UInt32} (w : Link)
    (hy : ∀ t, ∀ h ∈ holds t, h.slot ≠ y) :
    Shows (setLink link y w) holds (setLink W y w) := by
  refine ⟨?_, ?_, hs.nodup, hs.apart, ?_⟩
  · intro t h hh
    rw [setLink_of_ne _ _ (hy t h hh)]
    exact hs.reads t h hh
  · intro t h hh
    rw [setLink_of_ne _ _ (hy t h hh)]
    exact hs.value t h hh
  · intro z e hz
    by_cases h : z = y
    · subst h
      simp
    · rw [setLink_of_ne _ _ h, setLink_of_ne _ _ h]
      exact hs.free z e hz

/-- Where the pairs stood for never read `locked`, a side reads `locked` exactly when one
thread holds it. -/
theorem Shows.locked_iff (hs : Shows link holds W) (hW : ∀ y d, (W y).side d ≠ locked)
    (y : UInt32) (d : Side) :
    (link y).side d = locked ↔ ∃! t, ∃ h ∈ holds t, h.cell = (y, d) := by
  constructor
  · intro hl
    have hheld : ∃ t, ∃ h ∈ holds t, h.cell = (y, d) := by
      by_contra hnone
      exact hW y d (hs.free y d (fun t h hh hc => hnone ⟨t, h, hh, hc⟩) ▸ hl)
    obtain ⟨t, h, hh, hc⟩ := hheld
    refine ⟨t, ⟨h, hh, hc⟩, ?_⟩
    rintro u ⟨h', hh', hc'⟩
    exact hs.unique hh' hh (hc'.trans hc.symm)
  · rintro ⟨t, ⟨h, hh, hc⟩, -⟩
    obtain ⟨rfl, rfl⟩ := Hold.cell_eq_iff.1 hc
    exact hs.reads t h hh

end Moves

end ShardCache.Relink
