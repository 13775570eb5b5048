import ShardCache.Proofs.RelinkLists
/-!
# The relinking calls running alone

In a sequential run one thread makes every call, one after another, and a weak
compare-exchange fails only when its pair changed. `Call.alone` runs a call that way. From
formed lists, every test of the call passes and every compare-exchange goes through: each
call passes through the places of one round of its loop, and of one round of each `update`,
and returns. Its place list is `Detach.firstAttempt` or `Attach.firstAttempt`, which has no
`retry`, `undoLeft` or `undoHead`, no second `read`, and one compare-exchange per `update`.

* `Formed.unlink_alone`: `unlink(x, g)` of a listed slot whose test passes takes it out in
  twelve accesses. `Formed.unlink_refused` and `Formed.unlink_unlisted` cover the other
  answers.
* `Formed.unlinkTail_alone`: `unlink_tail` reads the tail sentinel once, then unlinks the
  last slot in twelve accesses, or answers `none` at once for an empty list.
* `Formed.linkHead_alone`: `link_head` of a detached slot from outside the lists puts it
  first in ten accesses.
-/
namespace ShardCache.Relink

/-- A call running alone: at most `n` of its accesses, with no other thread in between and
each compare-exchange going through unless its pair changed. The places of the accesses
made, the arena after them, and what the call handed back once it returned. -/
def Call.alone : Nat → Arena → Call → List Call × Arena × Option (Option UInt32)
  | 0, a, _ => ([], a, none)
  | n + 1, a, c =>
    match c.step false a with
    | (a', .inl c', _) =>
      let rest := Call.alone n a' c'
      (c :: rest.1, rest.2)
    | (a', .inr r, _) => ([c], a', some r)

/-- `unlink_checked` on `x` with test `acc` running alone, as `Call.alone` runs a call: the
places of at most `n` accesses, the arena after them, and its answer once it returned. -/
def Detach.alone (acc : Accept) (x : UInt32) : Nat → Arena → Detach → List Detach × Arena × Option Bool
  | 0, a, _ => ([], a, none)
  | n + 1, a, pc =>
    match Detach.step acc x false a pc with
    | (a', .inl pc', _) =>
      let rest := Detach.alone acc x n a' pc'
      (pc :: rest.1, rest.2)
    | (a', .inr b, _) => ([pc], a', some b)

/-- The places of `unlink_checked` on `x` when its test passes and every compare-exchange
goes through at once: one round of its loop and one round of each `update`. -/
def Detach.firstAttempt (a : Arena) (x : UInt32) : List Detach :=
  let seen := a.link x
  let l := a.link seen.pred
  let r := a.link seen.succ
  [.read, .lock seen, .check seen, .readLeft seen, .holdLeft seen l, .readRight seen,
    .holdRight seen r, .joinLeft seen none, .joinLeft seen (some (l.withSucc locked)),
    .joinRight seen none, .joinRight seen (some (r.withPred locked)), .finish]

/-- The places of `link_head` into the list `e` when every compare-exchange goes through at
once. -/
def Attach.firstAttempt (a : Arena) (e : Ends) : List Attach :=
  let first := (a.link e.head).succ
  let h := a.link e.head
  let f := a.link first
  [.read, .readHead first, .holdHead first h, .readFirst first, .holdFirst first f, .write first,
    .joinHead first none, .joinHead first (some (h.withSucc locked)),
    .joinFirst first none, .joinFirst first (some (f.withPred locked))]

section Alone

variable {lists : List Ends} {a : Arena} {seqs : Ends → List UInt32}

theorem Arena.ext_link {a b : Arena} (hl : a.link = b.link) (hg : a.gen = b.gen) : a = b := by
  cases a
  cases b
  simp_all

/-- The test of an unlink reads the generation word, which no store of a pair changes. -/
@[simp] theorem Accept.test_store (acc : Accept) (a : Arena) (y : UInt32) (w : Link) (x : UInt32)
    (seen : Link) : acc.test (a.store y w) x seen = acc.test a x seen := by
  cases acc <;> rfl

/-- No pair of a formed arena holds a side. -/
theorem Formed.hasLockedSide_eq_false (hf : Formed lists a.link seqs) (y : UInt32) :
    (a.link y).hasLockedSide = false :=
  Link.hasLockedSide_eq_false.2 ⟨hf.side_ne_locked y .pred, hf.side_ne_locked y .succ⟩

/-- The stores of one round of `unlink_checked` on `x`, between neighbours that are distinct
from it and from each other, leave `x` cut out. -/
theorem Arena.detach_stores {x : UInt32} (hLx : (a.link x).pred ≠ x) (hRx : (a.link x).succ ≠ x)
    (hLR : (a.link x).pred ≠ (a.link x).succ) :
    let L := (a.link x).pred
    let R := (a.link x).succ
    (((((a.store x Link.held).store L ((a.link L).withSucc locked)).store R
      ((a.link R).withPred locked)).store L (((a.link L).withSucc locked).setSide .succ R)).store
        R (((a.link R).withPred locked).setSide .pred L)).store x Link.detached =
      { a with link := Relink.cutOut a.link x } := by
  refine Arena.ext_link (funext fun z => ?_) rfl
  simp only [link_store, setLink, Relink.cutOut]
  by_cases hzx : z = x
  · simp [hzx]
  · by_cases hzL : z = (a.link x).pred
    · subst hzL
      simp [hLx, hLR, Link.setSide]
      rfl
    · by_cases hzR : z = (a.link x).succ
      · subst hzR
        simp [hRx, hLR.symm, Link.setSide]
        rfl
      · simp [hzx, hzL, hzR]

/-- An access after which the call goes on. -/
theorem Call.alone_of_inl {n : Nat} {c c' : Call} {a' : Arena} {ev : Event}
    (h : c.step false a = (a', .inl c', ev)) :
    Call.alone (n + 1) a c = (c :: (Call.alone n a' c').1, (Call.alone n a' c').2) := by
  rw [Call.alone, h]

/-- One round of `unlink_checked` on a listed slot whose test passes: it holds the slot,
its two neighbours, joins them and hands the slot back detached. -/
theorem Formed.detach_alone (hf : Formed lists a.link seqs) {x : UInt32}
    (hx : (a.link x).touchesEnd = false) {acc : Accept} (hacc : acc.test a x (a.link x) = true) :
    Detach.alone acc x 12 a .read =
      (Detach.firstAttempt a x, { a with link := Relink.cutOut a.link x }, some true) := by
  -- the neighbours lead back to `x`, are distinct, and no side of the three is held
  obtain ⟨hL, hR, -, -, -, hLx, hRx, hLR⟩ := hf.around hx
  have hsx := hf.hasLockedSide_eq_false x
  have hsl := hf.hasLockedSide_eq_false (a.link x).pred
  have hsr := hf.hasLockedSide_eq_false (a.link x).succ
  simp [Detach.alone, Detach.step, Arena.update, Detach.firstAttempt, hx, hsx, hsl, hsr,
    hL, hR, hLx, hRx, hLR, hLR.symm, setLink_of_ne, hacc]
  exact Arena.detach_stores hLx hRx hLR

/-- `unlink(x, g)` runs `unlink_checked` and hands `x` back when it answers `true`. -/
theorem Call.alone_unlink (x : UInt32) (g : Option UInt32) :
    ∀ (n : Nat) (a : Arena) (pc : Detach),
      Call.alone n a (.unlink x g pc) =
        ((Detach.alone (.ofGeneration g) x n a pc).1.map (.unlink x g),
          (Detach.alone (.ofGeneration g) x n a pc).2.1,
          (Detach.alone (.ofGeneration g) x n a pc).2.2.map fun b => if b then some x else none)
  | 0, _, _ => rfl
  | n + 1, a, pc => by
    simp only [Call.alone, Detach.alone, Call.step]
    rcases Detach.step (.ofGeneration g) x false a pc with ⟨a', pc' | b, ev⟩
    · simp only [Call.alone_unlink x g n a' pc', List.map_cons]
    · rfl

/-- `unlink_tail` detaching `v` hands it back when `unlink_checked` answers `true`. -/
theorem Call.alone_unlinkTail {e : Ends} {v : UInt32} :
    ∀ {n : Nat} {a a' : Arena} {pc : Detach} {ps : List Detach},
      Detach.alone (.last e.tail) v n a pc = (ps, a', some true) →
      Call.alone n a (.unlinkTail e (.detach v pc)) =
        (ps.map (.unlinkTail e ∘ .detach v), a', some (some v))
  | 0, _, _, _, _, h => by cases h
  | n + 1, a, a', pc, ps, h => by
    simp only [Detach.alone] at h
    simp only [Call.alone, Call.step, Tail.step]
    rcases hs : Detach.step (.last e.tail) v false a pc with ⟨a₁, pc' | b, ev⟩
    · rw [hs] at h
      dsimp only at h ⊢
      obtain ⟨rfl, hrest⟩ := Prod.mk.inj h
      have hrec : Detach.alone (.last e.tail) v n a₁ pc' =
          ((Detach.alone (.last e.tail) v n a₁ pc').1, a', some true) := by
        rw [← hrest]
      rw [Call.alone_unlinkTail hrec]
      rfl
    · rw [hs] at h
      dsimp only at h ⊢
      obtain ⟨rfl, rfl, rfl⟩ := h
      rfl

/-- `unlink(x, g)` of a listed slot whose test passes takes it out of its list in one round
of each loop. -/
theorem Formed.unlink_alone (hf : Formed lists a.link seqs) {x : UInt32}
    (hx : (a.link x).touchesEnd = false) {g : Option UInt32}
    (hg : (Accept.ofGeneration g).test a x (a.link x) = true) :
    Call.alone 12 a (.unlink x g .read) =
      ((Detach.firstAttempt a x).map (.unlink x g), { a with link := Relink.cutOut a.link x },
        some (some x)) := by
  rw [Call.alone_unlink, hf.detach_alone hx hg]
  rfl

/-- `unlink(x, g)` of a listed slot whose test fails puts the slot's pair back and answers
`none`. -/
theorem Formed.unlink_refused (hf : Formed lists a.link seqs) {x : UInt32}
    (hx : (a.link x).touchesEnd = false) {g : Option UInt32}
    (hg : (Accept.ofGeneration g).test a x (a.link x) = false) :
    Call.alone 4 a (.unlink x g .read) =
      ([.read, .lock (a.link x), .check (a.link x), .refuse (a.link x)].map (.unlink x g), a,
        some none) := by
  have hsx := hf.hasLockedSide_eq_false x
  rw [Call.alone_unlink]
  simp [Detach.alone, Detach.step, hx, hsx, hg]
  refine Arena.ext_link (funext fun z => ?_) rfl
  by_cases hzx : z = x <;> simp [setLink, hzx]

/-- `unlink(x, g)` of a slot whose pair marks an end answers `none` at its first load. -/
theorem unlink_unlisted {x : UInt32} (hx : (a.link x).touchesEnd = true) (g : Option UInt32) :
    Call.alone 1 a (.unlink x g .read) = ([.unlink x g .read], a, some none) := by
  simp [Call.alone, Call.step, Detach.step, hx]

/-- `unlink_tail` of an empty list answers `none` at its first load. -/
theorem Formed.unlinkTail_empty (hf : Formed lists a.link seqs) {e : Ends} (he : e ∈ lists)
    (hs : seqs e = []) :
    Call.alone 1 a (.unlinkTail e .read) = ([.unlinkTail e .read], a, some none) := by
  have htail := hf.tail_pred he
  rw [hs] at htail
  simp [Call.alone, Call.step, Tail.step, htail]

/-- `unlink_tail` of a list whose last slot is `v` reads the tail sentinel once and detaches
`v` in one round of each loop. -/
theorem Formed.unlinkTail_alone (hf : Formed lists a.link seqs) {e : Ends} (he : e ∈ lists)
    {init : List UInt32} {v : UInt32} (hs : seqs e = init ++ [v]) :
    Call.alone 13 a (.unlinkTail e .read) =
      (.unlinkTail e .read :: (Detach.firstAttempt a v).map (.unlinkTail e ∘ .detach v),
        { a with link := Relink.cutOut a.link v }, some (some v)) := by
  have hv : v ∈ seqs e := by simp [hs]
  have htail : (a.link e.tail).pred = v := by rw [hf.tail_pred he, hs]; simp
  -- `v` is a named slot other than the head sentinel, followed by the tail sentinel
  have hnd := chain_nodup hf.nodup he
  rw [chain_eq, List.cons_append, List.nodup_cons] at hnd
  have hvh : v ≠ e.head := fun h => hnd.1 (by simp [← h, hv])
  have hvl : v ≠ locked := (hf.named v (seq_subset_nodes he hv)).2
  obtain ⟨P, Q, -, hQ, -⟩ := hf.split he (hs.trans (by simp) : seqs e = init ++ v :: [])
  have hsucc : (a.link v).succ = e.tail := by
    rw [List.nil_append, List.cons.injEq] at hQ
    exact hQ.1.symm
  have hdetach := hf.detach_alone (hf.touchesEnd_of_mem he hv)
    (show (Accept.last e.tail).test a v (a.link v) = true by simp [Accept.test, hsucc])
  have hread : (Call.unlinkTail e .read).step false a =
      (a, .inl (.unlinkTail e (.detach v .read)), .quiet) := by
    simp [Call.step, Tail.step, htail, hvh, hvl]
  rw [Call.alone_of_inl hread, Call.alone_unlinkTail hdetach]

/-- The slot after a head sentinel leads back to it. -/
theorem Formed.first_pred (hf : Formed lists a.link seqs) {e : Ends} (he : e ∈ lists) :
    (a.link (a.link e.head).succ).pred = e.head := by
  obtain ⟨-, -, hch⟩ := hf.linked e he
  obtain ⟨Q, hc⟩ := hf.head_next he
  rw [hc, List.isChain_cons_cons] at hch
  exact hch.1.2

/-- The stores of one round of `link_head` of `x` after `h`, with `x`, `h` and the slot after
`h` distinct, leave `x` spliced in. -/
theorem Arena.attach_stores {h x : UInt32} (hxh : x ≠ h) (hxf : x ≠ (a.link h).succ)
    (hfh : (a.link h).succ ≠ h) :
    let F := (a.link h).succ
    ((((a.store h ((a.link h).withSucc locked)).store F ((a.link F).withPred locked)).store x
      ⟨h, F⟩).store h (((a.link h).withSucc locked).setSide .succ x)).store F
        (((a.link F).withPred locked).setSide .pred x) =
      { a with link := Relink.spliceIn a.link h x } := by
  refine Arena.ext_link (funext fun z => ?_) rfl
  simp only [link_store, setLink, Relink.spliceIn]
  by_cases hzx : z = x
  · subst hzx
    simp [hxh, hxf]
  · by_cases hzh : z = h
    · subst hzh
      simp [hzx, hfh.symm, Link.setSide]
      rfl
    · by_cases hzF : z = (a.link h).succ
      · subst hzF
        simp [hzx, hzh, Link.setSide]
        rfl
      · simp [hzx, hzh, hzF]

/-- `link_head` of a slot from outside the lists puts it first in its list in one round of
each loop. -/
theorem Formed.linkHead_alone (hf : Formed lists a.link seqs) {e : Ends} (he : e ∈ lists)
    {x : UInt32} (hx : x ∉ nodes lists seqs) :
    Call.alone 10 a (.linkHead e x .read) =
      ((Attach.firstAttempt a e).map (.linkHead e x), { a with link := Relink.spliceIn a.link e.head x },
        some none) := by
  -- the head and the slot after it lead to each other, are distinct from `x`, and hold no side
  have hfirst := hf.first_pred he
  have hfl : (a.link e.head).succ ≠ locked := hf.side_ne_locked e.head .succ
  have hfh := hf.head_succ_ne he
  have hxh : x ≠ e.head := fun h => hx (h ▸ head_mem_nodes he)
  have hxf : x ≠ (a.link e.head).succ := fun h => hx (h ▸ hf.head_succ_mem he)
  have hsh := hf.hasLockedSide_eq_false e.head
  have hsf := hf.hasLockedSide_eq_false (a.link e.head).succ
  simp [Call.alone, Call.step, Attach.step, Arena.update, Attach.firstAttempt, hfirst, hfl, hfh,
    hfh.symm, hxh.symm, hxf.symm, hsh, hsf, setLink_of_ne]
  exact Arena.attach_stores hxh hxf hfh

end Alone

end ShardCache.Relink
