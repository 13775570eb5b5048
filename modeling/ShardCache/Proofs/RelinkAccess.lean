import Mathlib
import ShardCache.Proofs.RelinkInvariant
/-!
# Every access keeps the invariant

One lemma per call: `Coherent.detach` for the places of `unlink_checked`,
shared by `unlink(x, g)` and `unlink_tail`, `Coherent.attach` for
`link_head`. Each place is one case, discharged by one of the moves of
`ShardCache.Proofs.RelinkInvariant`: the loads and lost races leave the held
sides as they were (`relabel`), a won compare-exchange takes a side
(`grab`, `grabPair`), a store puts one back (`release`, `releasePair`), and
the two commits restate the lists.

`Coherent.step` puts them together: every step of `Step` keeps `Coherent`,
with the lists changed as its event says (`Follows`), and `Reach.coherent`
follows by induction on the run.
-/
namespace ShardCache.Relink

/-! ## The steps of the calls, place by place -/

/-- One access of the loop that puts a held side back either writes the side, from the pair
it read, or writes nothing. -/
theorem Arena.update_cases (a : Arena) (sp : Bool) (y : UInt32) (d : Side) (v : UInt32)
    (cur : Option Link) :
    a.update sp y d v cur = (a.store y ((a.link y).setSide d v), none) ∨
      ∃ c, a.update sp y d v cur = (a, some c) := by
  cases cur with
  | none => exact .inr ⟨_, rfl⟩
  | some cur =>
    simp only [Arena.update]
    split_ifs with h
    · exact .inl (by rw [h.1])
    · exact .inr ⟨_, rfl⟩

theorem Call.step_unlink (sp : Bool) (a : Arena) (x : UInt32) (g : Option UInt32) (pc : Detach) :
    (Call.unlink x g pc).step sp a =
      ((Detach.step (.ofGeneration g) x sp a pc).1,
        (match (Detach.step (.ofGeneration g) x sp a pc).2.1 with
          | .inl pc' => .inl (.unlink x g pc')
          | .inr b => .inr (if b then some x else none)),
        (Detach.step (.ofGeneration g) x sp a pc).2.2) := by
  simp only [Call.step]
  generalize Detach.step (.ofGeneration g) x sp a pc = p
  rcases p with ⟨a', _ | b, ev⟩ <;> rfl

theorem Call.step_unlinkTail_detach (sp : Bool) (a : Arena) (e : Ends) (v : UInt32)
    (pc : Detach) :
    (Call.unlinkTail e (.detach v pc)).step sp a =
      ((Detach.step (.last e.tail) v sp a pc).1,
        (match (Detach.step (.last e.tail) v sp a pc).2.1 with
          | .inl pc' => .inl (.unlinkTail e (.detach v pc'))
          | .inr false => .inl (.unlinkTail e .read)
          | .inr true => .inr (some v)),
        (Detach.step (.last e.tail) v sp a pc).2.2) := by
  simp only [Call.step, Tail.step]
  generalize Detach.step (.last e.tail) v sp a pc = p
  rcases p with ⟨a', _ | _ | _, ev⟩ <;> rfl

theorem Call.step_linkHead (sp : Bool) (a : Arena) (e : Ends) (x : UInt32) (pc : Attach) :
    (Call.linkHead e x pc).step sp a =
      ((Attach.step e x sp a pc).1,
        (match (Attach.step e x sp a pc).2.1 with
          | some pc' => .inl (.linkHead e x pc')
          | none => .inr none),
        (Attach.step e x sp a pc).2.2) := by
  simp only [Call.step]
  generalize Attach.step e x sp a pc = p
  rcases p with ⟨a', _ | pc', ev⟩ <;> rfl

theorem System.advance_fst (σ : System) (t : Nat) (c : Call) (sp : Bool) :
    (σ.advance t c sp).1 = ⟨(c.step sp σ.arena).1,
      Function.update σ.threads t ((σ.threads t).resume (c.step sp σ.arena).2.1)⟩ := by
  simp only [System.advance, ← System.threads_setThread]

theorem System.advance_snd (σ : System) (t : Nat) (c : Call) (sp : Bool) :
    (σ.advance t c sp).2 = (c.step sp σ.arena).2.2 := rfl

theorem System.setThread_eq (σ : System) (t : Nat) (th : Thread) :
    σ.setThread t th = ⟨σ.arena, Function.update σ.threads t th⟩ := by
  rw [← System.threads_setThread]
  rfl

theorem Accept.passed_of_test {acc : Accept} {a : Arena} {x : UInt32} {seen : Link}
    (h : acc.test a x seen = true) : acc.Passed a.gen x seen := by
  cases acc <;> simp_all [Accept.test, Accept.Passed]

theorem Accept.Passed.kept {acc : Accept} {gen : UInt32 → UInt32} {x : UInt32} {seen : Link}
    (h : acc.Passed gen x seen) : acc.Kept gen x := by
  cases acc <;> simp_all [Accept.Passed, Accept.Kept]

theorem Sound.of_not {l : Link} (h1 : ¬l.touchesEnd = true) (h2 : ¬l.hasLockedSide = true) :
    Sound l := by
  simp_all [Sound]

/-! ## `unlink_checked` -/

section Calls

variable {lists : List Ends} {σ : System} {W : UInt32 → Link} {seqs : Ends → List UInt32}

/-- Every access of `unlink_checked` on `x` keeps the invariant. `embed` is the thread the
access leaves `t` as, by the next place of the detach or its answer; the hypotheses say that
it holds, carries, owns and relies on what the detach does. -/
theorem Coherent.detach (hc : Coherent lists σ W seqs) {t : Nat} {acc : Accept} {x : UInt32}
    {pc : Detach} (embed : Detach ⊕ Bool → Thread)
    (hholds : (σ.threads t).holds = pc.holds x)
    (hcarried : (σ.threads t).carried = pc.carried x) (hfits : pc.Fits acc σ.arena.gen x)
    (hin : ∀ pc', (embed (.inl pc')).holds = pc'.holds x ∧
      (embed (.inl pc')).carried = pc'.carried x ∧
      (embed (.inl pc')).owned = (σ.threads t).owned ∧
      (pc'.Fits acc σ.arena.gen x → (embed (.inl pc')).Fits lists σ.arena.gen))
    (hfalse : (embed (.inr false)).holds = [] ∧ (embed (.inr false)).carried = none ∧
      (embed (.inr false)).owned = (σ.threads t).owned ∧
      (embed (.inr false)).Fits lists σ.arena.gen)
    (htrue : (embed (.inr true)).holds = [] ∧ (embed (.inr true)).carried = none ∧
      (embed (.inr true)).owned = x :: (σ.threads t).owned ∧
      (embed (.inr true)).Fits lists σ.arena.gen)
    (sp : Bool) :
    ∃ W' seqs', Coherent lists ⟨(Detach.step acc x sp σ.arena pc).1,
        Function.update σ.threads t (embed (Detach.step acc x sp σ.arena pc).2.1)⟩ W' seqs' ∧
      Follows lists seqs seqs' (Detach.step acc x sp σ.arena pc).2.2 := by
  -- a step to a place with the same holds that writes nothing
  have stay : ∀ pc', pc'.holds x = pc.holds x → pc'.carried x = pc.carried x →
      pc'.Fits acc σ.arena.gen x →
      Coherent lists ⟨σ.arena, Function.update σ.threads t (embed (.inl pc'))⟩ W seqs := by
    intro pc' hh hcar hfit
    obtain ⟨h1, h2, h3, h4⟩ := hin pc'
    exact hc.relabel (by rw [h1, hh, hholds]) (by rw [h2, hcar, hcarried]) h3 (h4 hfit)
  -- the pair the detach took both sides of is the one it stands for
  have hpair : ∀ seen, Hold.pair x seen ⊆ pc.holds x → W x = seen := fun seen hp =>
    hc.shows.eq_of_pair (show Hold.pair x seen ⊆ σ.holds t by
      rw [show σ.holds t = (σ.threads t).holds from rfl, hholds]
      exact hp)
  cases pc with
  | read =>
    simp only [Detach.step]
    split_ifs with h1 h2
    · exact ⟨W, seqs, hc.relabel (by rw [hfalse.1, hholds]; rfl)
        (by rw [hfalse.2.1, hcarried]; rfl) hfalse.2.2.1 hfalse.2.2.2, rfl⟩
    · exact ⟨W, seqs, stay .read rfl rfl trivial, rfl⟩
    · exact ⟨W, seqs, stay (.lock _) rfl rfl (Sound.of_not h1 h2), rfl⟩
  | lock seen =>
    simp only [Detach.step]
    split_ifs with h
    · obtain ⟨h1, h2, h3, h4⟩ := hin (.check seen)
      have hs : Sound (σ.arena.link x) := h.1 ▸ hfits
      exact ⟨W, seqs, hc.grabPair (by rw [hholds]; rfl) hs (by rw [h1, h.1]; rfl)
        (by rw [h2, hcarried]; rfl) h3 (h4 hfits), rfl⟩
    · exact ⟨W, seqs, stay .read rfl rfl trivial, rfl⟩
  | check seen =>
    simp only [Detach.step]
    split_ifs with h
    · exact ⟨W, seqs, stay (.readLeft seen) rfl rfl ⟨hfits, Accept.passed_of_test h⟩, rfl⟩
    · exact ⟨W, seqs, stay (.refuse seen) rfl rfl hfits, rfl⟩
  | refuse seen =>
    obtain ⟨h1, h2, h3, h4⟩ := hfalse
    simp only [Detach.step]
    refine ⟨W, seqs, hc.releasePair hholds h1 ?_ h4, rfl⟩
    rw [Thread.owns_congr h3 (h2.trans hcarried.symm)]
  | readLeft seen =>
    simp only [Detach.step]
    split_ifs with h
    · exact ⟨W, seqs, stay (.holdLeft seen _) rfl rfl ⟨hfits.1, hfits.2, h.1, h.2⟩, rfl⟩
    · exact ⟨W, seqs, stay (.retry seen) rfl rfl hfits.1, rfl⟩
  | holdLeft seen l =>
    obtain ⟨hseen, hpass, hl1, hl2⟩ := hfits
    simp only [Detach.step]
    split_ifs with h
    · -- the successor side of the left neighbour reads `x`; the neighbour is in the lists
      obtain ⟨h1, h2, h3, h4⟩ := hin (.readRight seen)
      have hWx : W x = seen := hpair seen (List.Subset.refl _)
      have hxn : x ∈ nodes lists seqs := hc.formed.mem_of_inner (hWx ▸ hseen.1)
      have hLn : seen.pred ∈ nodes lists seqs := by
        rcases hc.formed.side_mem hxn .pred with hm | hm
        · rwa [hWx] at hm
        · exact absurd (by rw [← hWx]; exact hm) (Link.touchesEnd_eq_false.1 hseen.1).1
      have hstore : σ.arena.store seen.pred (l.withSucc locked) =
          σ.arena.store seen.pred ((σ.arena.link seen.pred).setSide .succ locked) := by
        rw [h]
        rfl
      rw [hstore]
      refine ⟨W, seqs, hc.grab (by rw [h]; exact Link.side_ne_locked hl2 .succ) hLn ?_
        (by rw [h2, hcarried]; rfl) h3 (h4 ⟨hseen, hpass⟩), rfl⟩
      rw [h1, hholds, h]
      simp [Detach.holds, hl1]
    · exact ⟨W, seqs, stay (.retry seen) rfl rfl hseen, rfl⟩
  | retry seen =>
    obtain ⟨h1, h2, h3, h4⟩ := hin .read
    simp only [Detach.step]
    refine ⟨W, seqs, hc.releasePair hholds h1 ?_ (h4 trivial), rfl⟩
    rw [Thread.owns_congr h3 (h2.trans hcarried.symm)]
  | readRight seen =>
    simp only [Detach.step]
    split_ifs with h
    · exact ⟨W, seqs, stay (.holdRight seen _) rfl rfl ⟨hfits.1, hfits.2, h.1, h.2⟩, rfl⟩
    · exact ⟨W, seqs, stay (.undoLeft seen none) rfl rfl hfits.1, rfl⟩
  | holdRight seen r =>
    obtain ⟨hseen, hpass, hr1, hr2⟩ := hfits
    simp only [Detach.step]
    split_ifs with h
    · obtain ⟨h1, h2, h3, h4⟩ := hin (.joinLeft seen none)
      have hstore : σ.arena.store seen.succ (r.withPred locked) =
          σ.arena.store seen.succ ((σ.arena.link seen.succ).withPred locked) := by
        rw [h]
      rw [hstore]
      obtain ⟨seqs', hc', hf'⟩ := hc.commitUnlink hholds hcarried hseen (by rw [h]; exact hr1)
        h1 h2 h3 (h4 hpass.kept)
      exact ⟨_, seqs', hc', hf'⟩
    · exact ⟨W, seqs, stay (.undoLeft seen none) rfl rfl hseen, rfl⟩
  | undoLeft seen cur =>
    simp only [Detach.step]
    rcases Arena.update_cases σ.arena sp seen.pred .succ x cur with hu | ⟨c, hu⟩
    · rw [hu]
      obtain ⟨h1, h2, h3, h4⟩ := hin (.retry seen)
      exact ⟨W, seqs, hc.release (by rw [hholds, h1]; rfl) (by rw [h2, hcarried]; rfl) h3
        (h4 hfits), rfl⟩
    · rw [hu]
      exact ⟨W, seqs, stay (.undoLeft seen (some c)) rfl rfl hfits, rfl⟩
  | joinLeft seen cur =>
    simp only [Detach.step]
    rcases Arena.update_cases σ.arena sp seen.pred .succ seen.succ cur with hu | ⟨c, hu⟩
    · rw [hu]
      obtain ⟨h1, h2, h3, h4⟩ := hin (.joinRight seen none)
      exact ⟨W, seqs, hc.release (by rw [hholds, h1]; rfl) (by rw [h2, hcarried]; rfl) h3
        (h4 hfits), rfl⟩
    · rw [hu]
      exact ⟨W, seqs, stay (.joinLeft seen (some c)) rfl rfl hfits, rfl⟩
  | joinRight seen cur =>
    simp only [Detach.step]
    rcases Arena.update_cases σ.arena sp seen.succ .pred seen.pred cur with hu | ⟨c, hu⟩
    · rw [hu]
      obtain ⟨h1, h2, h3, h4⟩ := hin .finish
      exact ⟨W, seqs, hc.release (by rw [hholds, h1]; rfl) (by rw [h2, hcarried]; rfl) h3
        (h4 hfits), rfl⟩
    · rw [hu]
      exact ⟨W, seqs, stay (.joinRight seen (some c)) rfl rfl hfits, rfl⟩
  | finish =>
    -- the answer hands the carried slot to the thread
    obtain ⟨h1, h2, h3, h4⟩ := htrue
    simp only [Detach.step]
    refine ⟨W, seqs, hc.releasePair hholds h1 ?_ h4, rfl⟩
    rw [Thread.owns, Thread.owns, h2, h3, hcarried]
    simpa [Detach.carried] using (List.perm_append_singleton x (σ.threads t).owned).symm

/-- Every access of `unlink(x, g)` keeps the invariant. -/
theorem Coherent.unlink (hc : Coherent lists σ W seqs) {t : Nat} {x : UInt32}
    {g : Option UInt32} {pc : Detach} (hcall : (σ.threads t).call = some (.unlink x g pc))
    (sp : Bool) :
    ∃ W' seqs', Coherent lists (σ.advance t (.unlink x g pc) sp).1 W' seqs' ∧
      Follows lists seqs seqs' (σ.advance t (.unlink x g pc) sp).2 := by
  have hfits : pc.Fits (.ofGeneration g) σ.arena.gen x := by
    have := (hc.each t).fits
    rwa [Thread.fits_eq hcall] at this
  rw [System.advance_fst, System.advance_snd, Call.step_unlink]
  exact hc.detach (fun r => (σ.threads t).resume (match r with
      | .inl pc' => .inl (.unlink x g pc')
      | .inr b => .inr (if b then some x else none)))
    (Thread.holds_eq hcall) (Thread.carried_eq hcall) hfits
    (fun _ => ⟨rfl, rfl, rfl, id⟩) ⟨rfl, rfl, rfl, trivial⟩ ⟨rfl, rfl, rfl, trivial⟩ sp

/-- Every access of `unlink_tail(e)` keeps the invariant: reading the tail writes nothing,
and the detach of the victim is that of `Coherent.detach`. -/
theorem Coherent.unlinkTail (hc : Coherent lists σ W seqs) {t : Nat} {e : Ends} {pc : Tail}
    (hcall : (σ.threads t).call = some (.unlinkTail e pc)) (sp : Bool) :
    ∃ W' seqs', Coherent lists (σ.advance t (.unlinkTail e pc) sp).1 W' seqs' ∧
      Follows lists seqs seqs' (σ.advance t (.unlinkTail e pc) sp).2 := by
  have hfits : e ∈ lists ∧ pc.Fits e σ.arena.gen := by
    have := (hc.each t).fits
    rwa [Thread.fits_eq hcall] at this
  have hholds := Thread.holds_eq hcall
  have hcarried := Thread.carried_eq hcall
  cases pc with
  | read =>
    rw [System.advance_fst, System.advance_snd]
    simp only [Call.step, Tail.step]
    split_ifs
    · exact ⟨W, seqs, hc.relabel (by rw [hholds]; rfl) (by rw [hcarried]; rfl) rfl trivial, rfl⟩
    · exact ⟨W, seqs, hc.relabel (by rw [hholds]; rfl) (by rw [hcarried]; rfl) rfl
        ⟨hfits.1, trivial⟩, rfl⟩
    · exact ⟨W, seqs, hc.relabel (by rw [hholds]; rfl) (by rw [hcarried]; rfl) rfl
        ⟨hfits.1, trivial⟩, rfl⟩
  | detach v pc =>
    rw [System.advance_fst, System.advance_snd, Call.step_unlinkTail_detach]
    exact hc.detach (fun r => (σ.threads t).resume (match r with
        | .inl pc' => .inl (.unlinkTail e (.detach v pc'))
        | .inr false => .inl (.unlinkTail e .read)
        | .inr true => .inr (some v)))
      hholds hcarried hfits.2 (fun _ => ⟨rfl, rfl, rfl, fun h => ⟨hfits.1, h⟩⟩)
      ⟨rfl, rfl, rfl, ⟨hfits.1, trivial⟩⟩ ⟨rfl, rfl, rfl, trivial⟩ sp

/-! ## `link_head` -/

/-- Every access of `link_head(e, x)` keeps the invariant. -/
theorem Coherent.attach (hc : Coherent lists σ W seqs) {t : Nat} {e : Ends} {x : UInt32}
    {pc : Attach} (hcall : (σ.threads t).call = some (.linkHead e x pc)) (sp : Bool) :
    ∃ W' seqs', Coherent lists (σ.advance t (.linkHead e x pc) sp).1 W' seqs' ∧
      Follows lists seqs seqs' (σ.advance t (.linkHead e x pc) sp).2 := by
  have hholds : (σ.threads t).holds = pc.holds e x := Thread.holds_eq hcall
  have hcarried : (σ.threads t).carried = pc.carried x := Thread.carried_eq hcall
  have hfits : e ∈ lists ∧ pc.Fits e := by
    have := (hc.each t).fits
    rwa [Thread.fits_eq hcall] at this
  rw [System.advance_fst, System.advance_snd, Call.step_linkHead]
  -- a step to a place with the same holds that writes nothing
  have stay : ∀ pc', pc'.holds e x = pc.holds e x → pc'.carried x = pc.carried x → pc'.Fits e →
      Coherent lists ⟨σ.arena, Function.update σ.threads t
        ((σ.threads t).resume (.inl (.linkHead e x pc')))⟩ W seqs := by
    intro pc' hh hcar hfit
    exact hc.relabel (by rw [hholds, ← hh]; rfl) (by rw [hcarried, ← hcar]; rfl) rfl
      ⟨hfits.1, hfit⟩
  cases pc with
  | read =>
    simp only [Attach.step]
    split_ifs
    · exact ⟨W, seqs, stay .read rfl rfl trivial, rfl⟩
    · exact ⟨W, seqs, stay (.readHead _) rfl rfl trivial, rfl⟩
  | readHead first =>
    simp only [Attach.step]
    split_ifs with h
    · exact ⟨W, seqs, stay (.holdHead first _) rfl rfl h, rfl⟩
    · exact ⟨W, seqs, stay .read rfl rfl trivial, rfl⟩
  | holdHead first h =>
    obtain ⟨he, hh1, hh2⟩ := hfits
    simp only [Attach.step]
    split_ifs with hcur
    · -- the head's successor side reads `first`
      have hstore : σ.arena.store e.head (h.withSucc locked) =
          σ.arena.store e.head ((σ.arena.link e.head).setSide .succ locked) := by
        rw [hcur]
        rfl
      rw [hstore]
      refine ⟨W, seqs, hc.grab (by rw [hcur]; exact Link.side_ne_locked hh2 .succ)
        (head_mem_nodes he) ?_ (by rw [hcarried]; rfl) rfl ⟨he, trivial⟩, rfl⟩
      rw [hholds]
      simp [Thread.resume, Call.holds, Attach.holds, hcur, hh1]
    · exact ⟨W, seqs, stay .read rfl rfl trivial, rfl⟩
  | readFirst first =>
    simp only [Attach.step]
    split_ifs with h
    · exact ⟨W, seqs, stay (.holdFirst first _) rfl rfl h, rfl⟩
    · exact ⟨W, seqs, stay (.undoHead first none) rfl rfl trivial, rfl⟩
  | holdFirst first f =>
    obtain ⟨he, hf1, hf2⟩ := hfits
    simp only [Attach.step]
    split_ifs with hcur
    · -- `first` is the slot the head leads to, so a slot of the lists
      have hHF : (W e.head).succ = first := hc.shows.value t ⟨e.head, .succ, first⟩
        (show _ ∈ (σ.threads t).holds by rw [hholds]; simp [Attach.holds])
      have hFn : first ∈ nodes lists seqs := hHF ▸ hc.formed.head_succ_mem he
      have hstore : σ.arena.store first (f.withPred locked) =
          σ.arena.store first ((σ.arena.link first).setSide .pred locked) := by
        rw [hcur]
        rfl
      rw [hstore]
      refine ⟨W, seqs, hc.grab (by rw [hcur]; exact Link.side_ne_locked hf2 .pred) hFn ?_
        (by rw [hcarried]; rfl) rfl ⟨he, trivial⟩, rfl⟩
      rw [hholds]
      simp [Thread.resume, Call.holds, Attach.holds, hcur, hf1]
    · exact ⟨W, seqs, stay (.undoHead first none) rfl rfl trivial, rfl⟩
  | undoHead first cur =>
    simp only [Attach.step]
    rcases Arena.update_cases σ.arena sp e.head .succ first cur with hu | ⟨c, hu⟩
    · rw [hu]
      exact ⟨W, seqs, hc.release (by rw [hholds]; rfl) (by rw [hcarried]; rfl) rfl
        ⟨hfits.1, trivial⟩, rfl⟩
    · rw [hu]
      exact ⟨W, seqs, stay (.undoHead first (some c)) rfl rfl trivial, rfl⟩
  | write first =>
    simp only [Attach.step]
    have hth' : ((σ.threads t).resume (.inl (.linkHead e x (.joinHead first none)))).holds =
        [⟨e.head, .succ, x⟩, ⟨first, .pred, x⟩] := rfl
    obtain ⟨seqs', hc', hf'⟩ := hc.commitLink hfits.1 (by rw [hholds]; rfl) hcarried hth' rfl rfl
      ⟨hfits.1, trivial⟩
    exact ⟨_, seqs', hc', hf'⟩
  | joinHead first cur =>
    simp only [Attach.step]
    rcases Arena.update_cases σ.arena sp e.head .succ x cur with hu | ⟨c, hu⟩
    · rw [hu]
      exact ⟨W, seqs, hc.release (by rw [hholds]; rfl) (by rw [hcarried]; rfl) rfl
        ⟨hfits.1, trivial⟩, rfl⟩
    · rw [hu]
      exact ⟨W, seqs, stay (.joinHead first (some c)) rfl rfl trivial, rfl⟩
  | joinFirst first cur =>
    simp only [Attach.step]
    rcases Arena.update_cases σ.arena sp first .pred x cur with hu | ⟨c, hu⟩
    · rw [hu]
      exact ⟨W, seqs, hc.release (by rw [hholds]; rfl) (by rw [hcarried]; rfl) rfl trivial, rfl⟩
    · rw [hu]
      exact ⟨W, seqs, stay (.joinFirst first (some c)) rfl rfl trivial, rfl⟩

/-! ## Every step -/

theorem Coherent.access (hc : Coherent lists σ W seqs) {t : Nat} {c : Call}
    (hcall : (σ.threads t).call = some c) (sp : Bool) :
    ∃ W' seqs', Coherent lists (σ.advance t c sp).1 W' seqs' ∧
      Follows lists seqs seqs' (σ.advance t c sp).2 := by
  cases c with
  | unlink x g pc => exact hc.unlink hcall sp
  | unlinkTail e pc => exact hc.unlinkTail hcall sp
  | linkHead e x pc => exact hc.attach hcall sp

/-- Every step keeps the invariant, with the lists changed as its event says. -/
theorem Coherent.step (hc : Coherent lists σ W seqs) {t : Nat} {ev : Event} {σ' : System}
    (hs : Step lists σ t ev σ') :
    ∃ W' seqs', Coherent lists σ' W' seqs' ∧ Follows lists seqs seqs' ev := by
  cases hs with
  | unlink x g hidle =>
    rw [System.setThread_eq]
    exact ⟨W, seqs, hc.relabel (by rw [Thread.holds_of_call hidle]; rfl)
      (by rw [Thread.carried_of_call hidle]; rfl) rfl trivial, rfl⟩
  | unlinkTail e he hidle =>
    rw [System.setThread_eq]
    exact ⟨W, seqs, hc.relabel (by rw [Thread.holds_of_call hidle]; rfl)
      (by rw [Thread.carried_of_call hidle]; rfl) rfl ⟨he, trivial⟩, rfl⟩
  | linkHead e x he hidle hx _ =>
    -- the slot moves from what the thread owns to what its call carries
    rw [System.setThread_eq]
    refine ⟨W, seqs, hc.reown (Thread.holds_of_call hidle) rfl ?_ ⟨he, trivial⟩, rfl⟩
    rw [Thread.owns_of_call hidle]
    exact (List.perm_append_singleton x _).trans (List.perm_cons_erase hx).symm
  | access c sp hcall => exact hc.access hcall sp
  | rewrite x w hidle hx hwe hwl => exact ⟨_, seqs, hc.rewrite hidle hx hwe hwl, rfl⟩
  | renew x hidle hx => exact ⟨W, seqs, hc.renew hidle hx, rfl⟩

/-- Every reachable system is coherent. -/
theorem Reach.coherent {lists : List Ends} {σ : System} (h : Reach lists σ) :
    ∃ W seqs, Coherent lists σ W seqs := by
  induction h with
  | start hi =>
    obtain ⟨seqs, hc⟩ := hi.coherent
    exact ⟨_, seqs, hc⟩
  | step _ hs ih =>
    obtain ⟨W, seqs, hc⟩ := ih
    obtain ⟨W', seqs', hc', -⟩ := hc.step hs
    exact ⟨W', seqs', hc'⟩

end Calls

end ShardCache.Relink
