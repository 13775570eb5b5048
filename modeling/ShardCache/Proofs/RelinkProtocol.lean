import Mathlib
import ShardCache.Proofs.RelinkAccess
/-!
# The relinking protocol is safe

`relinking_safe` collects what the invariant gives about every interleaving
of `unlink`, `unlink_tail` and `link_head` calls:

* a side reads `locked` exactly when one call in flight holds it, and a step
  of one call never writes a side another call holds;
* a slot is handed back detached at most once between two commits of
  `link_head` on it, and the unlink that hands it back took it out of a list
  when it committed, out of the list of its tail sentinel for `unlink_tail`;
* `unlink(x, Some g)` answers `true` only while it holds both sides of `x`
  and the generation of `x` is `g`;
* with no call in flight the lists are formed again, and every slot outside
  them is owned by one thread.

The second point is about runs. A call is *pending* on a slot between the
commit of its unlink and its answer; only that commit makes a call pending,
and only a pending call hands a slot back (`Call.pending_step`,
`Call.step_detached`). After a slot is handed back it is in no list and no
call is pending on it (`Absent`), and this lasts until a `link_head` of the
slot commits (`Absent.run`).
-/
namespace ShardCache.Relink

/-! ## The events of one access -/

/-- The slot a call will hand back detached: the one it has unlinked. -/
def Call.pending : Call → Option UInt32
  | .unlink x _ pc => pc.carried x
  | .unlinkTail _ pc => pc.carried
  | .linkHead _ _ _ => none

/-- The slot a thread's call will hand back detached. -/
def Thread.pending (th : Thread) : Option UInt32 := th.call.bind Call.pending

/-- One access of `unlink_checked` on `x` is quiet and keeps the slot it carries, or commits
the unlink, from `holdRight` to `joinLeft`, or answers `true`, from `finish`. -/
theorem Detach.step_spec (acc : Accept) (x : UInt32) (sp : Bool) (a : Arena) (pc : Detach) :
    ((Detach.step acc x sp a pc).2.2 = .quiet ∧
        (∀ pc', (Detach.step acc x sp a pc).2.1 = .inl pc' → pc'.carried x = pc.carried x) ∧
        (Detach.step acc x sp a pc).2.1 ≠ .inr true) ∨
      (∃ seen r, pc = .holdRight seen r ∧ (Detach.step acc x sp a pc).2.2 = .unlinked x ∧
        (Detach.step acc x sp a pc).2.1 = .inl (.joinLeft seen none)) ∨
      (pc = .finish ∧ (Detach.step acc x sp a pc).2.2 = .detached x ∧
        (Detach.step acc x sp a pc).2.1 = .inr true) := by
  cases pc with
  | holdRight seen r =>
    simp only [Detach.step]
    split_ifs
    · exact .inr (.inl ⟨seen, r, rfl, rfl, rfl⟩)
    · exact .inl ⟨rfl, by simp [Detach.carried], by simp⟩
  | finish => exact .inr (.inr ⟨rfl, rfl, rfl⟩)
  | undoLeft seen cur | joinLeft seen cur | joinRight seen cur =>
    refine .inl ?_
    simp only [Detach.step]
    split <;> simp [Detach.carried]
  | read | lock _ | check _ | readLeft _ | holdLeft _ _ | readRight _ =>
    refine .inl ?_
    simp only [Detach.step]
    split_ifs <;> simp [Detach.carried]
  | refuse _ | retry _ =>
    exact .inl ⟨rfl, by simp [Detach.step, Detach.carried], by simp [Detach.step]⟩

/-- One access of `link_head(e, x)` is quiet or commits. -/
theorem Attach.step_event (e : Ends) (x : UInt32) (sp : Bool) (a : Arena) (pc : Attach) :
    (Attach.step e x sp a pc).2.2 = .quiet ∨ (Attach.step e x sp a pc).2.2 = .linked x := by
  cases pc with
  | write first => exact .inr rfl
  | read | readHead _ | holdHead _ _ | readFirst _ | holdFirst _ _ =>
    left
    simp only [Attach.step]
    split_ifs <;> rfl
  | undoHead _ cur | joinHead _ cur | joinFirst _ cur =>
    left
    simp only [Attach.step]
    split <;> rfl

@[simp] theorem Thread.call_resume_inl (th : Thread) (c : Call) :
    (th.resume (.inl c)).call = some c := rfl

@[simp] theorem Thread.call_resume_inr (th : Thread) (r : Option UInt32) :
    (th.resume (.inr r)).call = none := by
  cases r <;> rfl

theorem Thread.pending_resume_inr (th : Thread) (r : Option UInt32) :
    (th.resume (.inr r)).pending = none := by
  simp [Thread.pending]

/-- An access leaves its call pending on a slot only if it was already, or it commits the
unlink of that slot. -/
theorem Call.pending_step (th : Thread) (c : Call) (sp : Bool) (a : Arena) {y : UInt32}
    (h : (th.resume (c.step sp a).2.1).pending = some y) :
    c.pending = some y ∨ (c.step sp a).2.2 = .unlinked y := by
  cases c with
  | unlink x g pc =>
    rw [Call.step_unlink] at h ⊢
    rcases Detach.step_spec (.ofGeneration g) x sp a pc with ⟨-, hq, -⟩ | ⟨seen, r, -, hev, hr⟩ |
      ⟨-, -, hr⟩
    · left
      generalize hr : (Detach.step (.ofGeneration g) x sp a pc).2.1 = r at h hq
      rcases r with pc' | b
      · simpa [Thread.pending, Call.pending, hq pc' rfl] using h
      · simp [Thread.pending_resume_inr] at h
    · rw [hr] at h
      simp only [Thread.pending, Thread.call_resume_inl, Option.bind_some, Call.pending,
        Detach.carried, Option.some.injEq] at h
      exact .inr (h ▸ hev)
    · rw [hr, Thread.pending_resume_inr] at h
      cases h
  | unlinkTail e pc =>
    cases pc with
    | read =>
      simp only [Call.step, Tail.step] at h
      split_ifs at h <;> simp [Thread.pending, Call.pending, Tail.carried, Detach.carried] at h
    | detach v pc =>
      rw [Call.step_unlinkTail_detach] at h ⊢
      rcases Detach.step_spec (.last e.tail) v sp a pc with ⟨-, hq, -⟩ | ⟨seen, r, -, hev, hr⟩ |
        ⟨-, -, hr⟩
      · left
        generalize hr : (Detach.step (.last e.tail) v sp a pc).2.1 = r at h hq
        rcases r with pc' | _ | _
        · simpa [Thread.pending, Call.pending, Tail.carried, hq pc' rfl] using h
        · simp [Thread.pending, Call.pending, Tail.carried] at h
        · simp [Thread.pending_resume_inr] at h
      · rw [hr] at h
        simp only [Thread.pending, Thread.call_resume_inl, Option.bind_some, Call.pending,
          Tail.carried, Detach.carried, Option.some.injEq] at h
        exact .inr (h ▸ hev)
      · rw [hr, Thread.pending_resume_inr] at h
        cases h
  | linkHead e x pc =>
    rw [Call.step_linkHead] at h
    generalize (Attach.step e x sp a pc).2.1 = r at h
    rcases r with _ | pc' <;> simp [Thread.pending, Call.pending] at h

/-- An access that hands a slot back is the answer of a call pending on it; for
`unlink(x, g)` it is the access from `finish`. -/
theorem Call.step_detached {c : Call} {sp : Bool} {a : Arena} {y : UInt32}
    (h : (c.step sp a).2.2 = .detached y) :
    c.pending = some y ∧ (∃ r, (c.step sp a).2.1 = .inr r) ∧
      ∀ x g pc, c = .unlink x g pc → pc = .finish := by
  cases c with
  | unlink x g pc =>
    rw [Call.step_unlink] at h ⊢
    rcases Detach.step_spec (.ofGeneration g) x sp a pc with ⟨hq, -, -⟩ | ⟨-, -, -, hev, -⟩ |
      ⟨rfl, hev, hr⟩
    · rw [hq] at h
      cases h
    · rw [hev] at h
      cases h
    · rw [hev] at h
      cases h
      refine ⟨rfl, ⟨_, by rw [hr]⟩, ?_⟩
      rintro x g pc ⟨⟩
      rfl
  | unlinkTail e pc =>
    cases pc with
    | read =>
      simp only [Call.step, Tail.step] at h
      split_ifs at h
    | detach v pc =>
      rw [Call.step_unlinkTail_detach] at h ⊢
      rcases Detach.step_spec (.last e.tail) v sp a pc with ⟨hq, -, -⟩ | ⟨-, -, -, hev, -⟩ |
        ⟨rfl, hev, hr⟩
      · rw [hq] at h
        cases h
      · rw [hev] at h
        cases h
      · rw [hev] at h
        cases h
        refine ⟨rfl, ⟨_, by rw [hr]⟩, ?_⟩
        rintro x g pc ⟨⟩
  | linkHead e x pc =>
    rw [Call.step_linkHead] at h
    rcases Attach.step_event e x sp a pc with hq | hq <;> rw [hq] at h <;> cases h

/-- An access that commits an unlink of `y` is that of a detach of `y` at `holdRight`. -/
theorem Call.step_unlinked {c : Call} {sp : Bool} {a : Arena} {y : UInt32}
    (h : (c.step sp a).2.2 = .unlinked y) :
    (∃ g seen r, c = .unlink y g (.holdRight seen r)) ∨
      ∃ e seen r, c = .unlinkTail e (.detach y (.holdRight seen r)) := by
  cases c with
  | unlink x g pc =>
    rw [Call.step_unlink] at h
    rcases Detach.step_spec (.ofGeneration g) x sp a pc with ⟨hq, -, -⟩ |
      ⟨seen, r, rfl, hev, -⟩ | ⟨-, hev, -⟩
    · rw [hq] at h
      cases h
    · rw [hev] at h
      cases h
      exact .inl ⟨g, seen, r, rfl⟩
    · rw [hev] at h
      cases h
  | unlinkTail e pc =>
    cases pc with
    | read =>
      simp only [Call.step, Tail.step] at h
      split_ifs at h
    | detach v pc =>
      rw [Call.step_unlinkTail_detach] at h
      rcases Detach.step_spec (.last e.tail) v sp a pc with ⟨hq, -, -⟩ |
        ⟨seen, r, rfl, hev, -⟩ | ⟨-, hev, -⟩
      · rw [hq] at h
        cases h
      · rw [hev] at h
        cases h
        exact .inr ⟨e, seen, r, rfl⟩
      · rw [hev] at h
        cases h
  | linkHead e x pc =>
    rw [Call.step_linkHead] at h
    rcases Attach.step_event e x sp a pc with hq | hq <;> rw [hq] at h <;> cases h

theorem Call.carried_of_pending {c : Call} {x : UInt32} (h : c.pending = some x) :
    c.carried = some x := by
  cases c with
  | unlink y g pc => exact h
  | unlinkTail e pc => exact h
  | linkHead e y pc => cases h

theorem Thread.carried_of_pending {th : Thread} {x : UInt32} (h : th.pending = some x) :
    th.carried = some x := by
  rcases th with ⟨o, _ | c⟩
  · cases h
  · exact Call.carried_of_pending h

/-! ## Steps and runs -/

section Runs

variable {lists : List Ends}

/-- A step of thread `t` leaves every other thread as it was. -/
theorem Step.threads_of_ne {σ σ' : System} {t : Nat} {ev : Event} (hs : Step lists σ t ev σ')
    {u : Nat} (hu : u ≠ t) : σ'.threads u = σ.threads u := by
  cases hs with
  | access c sp hcall =>
    rw [System.advance_fst]
    exact Function.update_of_ne hu _ _
  | rewrite => rfl
  | renew => rfl
  | unlink | unlinkTail | linkHead =>
    rw [System.threads_setThread]
    exact Function.update_of_ne hu _ _

/-- A step with an event is an access of the call of its thread. -/
theorem Step.access_of_event {σ σ' : System} {t : Nat} {ev : Event} (hs : Step lists σ t ev σ')
    (hev : ev ≠ .quiet) :
    ∃ c sp, (σ.threads t).call = some c ∧ σ' = (σ.advance t c sp).1 ∧
      ev = (c.step sp σ.arena).2.2 := by
  cases hs with
  | access c sp hcall => exact ⟨c, sp, hcall, rfl, rfl⟩
  | _ => exact absurd rfl hev

/-- A step makes a call pending on a slot only by committing the unlink of that slot. -/
theorem Step.pending {σ σ' : System} {t : Nat} {ev : Event} (hs : Step lists σ t ev σ')
    {u : Nat} {y : UInt32} (h : (σ'.threads u).pending = some y) :
    (σ.threads u).pending = some y ∨ ev = .unlinked y := by
  by_cases hu : u = t
  · subst hu
    cases hs with
    | access c sp hcall =>
      simp only [System.advance_fst, Function.update_self] at h
      rcases Call.pending_step _ c sp σ.arena h with h' | h'
      · left
        simp [Thread.pending, hcall, h']
      · exact .inr h'
    | rewrite => exact .inl h
    | renew => exact .inl h
    | unlink =>
      simp [System.setThread_eq, Thread.pending, Call.pending, Detach.carried] at h
    | unlinkTail =>
      simp [System.setThread_eq, Thread.pending, Call.pending, Tail.carried] at h
    | linkHead =>
      simp [System.setThread_eq, Thread.pending, Call.pending] at h
  · exact .inl (hs.threads_of_ne hu ▸ h)

/-- The step that hands `y` back is the answer of the call pending on `y`, which then has
returned; for `unlink(x, g)` it is the step from `finish`. -/
theorem Step.detached {σ σ' : System} {t : Nat} {y : UInt32}
    (hs : Step lists σ t (.detached y) σ') :
    (σ.threads t).pending = some y ∧ (σ'.threads t).call = none ∧
      ∀ x g pc, (σ.threads t).call = some (.unlink x g pc) → pc = .finish := by
  obtain ⟨c, sp, hcall, rfl, hev⟩ := hs.access_of_event (by simp)
  obtain ⟨hp, ⟨r, hr⟩, hfin⟩ := Call.step_detached hev.symm
  refine ⟨by simp [Thread.pending, hcall, hp], ?_, fun x g pc h => ?_⟩
  · simp [System.advance_fst, hr]
  · rw [hcall] at h
    exact hfin x g pc (Option.some.inj h)

/-- The step that commits an unlink of `y` is a detach of `y` at `holdRight`. -/
theorem Step.unlinked {σ σ' : System} {t : Nat} {y : UInt32}
    (hs : Step lists σ t (.unlinked y) σ') :
    (∃ g seen r, (σ.threads t).call = some (.unlink y g (.holdRight seen r))) ∨
      ∃ e seen r, (σ.threads t).call = some (.unlinkTail e (.detach y (.holdRight seen r))) := by
  obtain ⟨c, sp, hcall, -, hev⟩ := hs.access_of_event (by simp)
  rcases Call.step_unlinked hev.symm with ⟨g, seen, r, rfl⟩ | ⟨e, seen, r, rfl⟩
  · exact .inl ⟨g, seen, r, hcall⟩
  · exact .inr ⟨e, seen, r, hcall⟩

theorem Run.split {σ σ'' : System} {A B : List (Nat × Event)} (h : Run lists σ (A ++ B) σ'') :
    ∃ σ', Run lists σ A σ' ∧ Run lists σ' B σ'' := by
  induction A generalizing σ with
  | nil => exact ⟨σ, .nil σ, h⟩
  | cons p A ih =>
    cases h with
    | cons hs hr =>
      obtain ⟨σ', h1, h2⟩ := ih hr
      exact ⟨σ', .cons hs h1, h2⟩

theorem Reach.run {σ σ' : System} {es : List (Nat × Event)} (h : Reach lists σ)
    (hr : Run lists σ es σ') : Reach lists σ' := by
  induction hr with
  | nil => exact h
  | cons hs _ ih => exact ih (h.step hs)

/-- Slot `x` is in no list and no call is pending on it. -/
def Absent (lists : List Ends) (σ : System) (seqs : Ends → List UInt32) (x : UInt32) : Prop :=
  x ∉ nodes lists seqs ∧ ∀ t, (σ.threads t).pending ≠ some x

/-- A step keeps a slot absent unless it links it, and never hands an absent slot back. -/
theorem Absent.step {σ σ' : System} {W : UInt32 → Link} {seqs seqs' : Ends → List UInt32}
    {t : Nat} {ev : Event} {x : UInt32} (hc : Coherent lists σ W seqs)
    (ha : Absent lists σ seqs x) (hs : Step lists σ t ev σ') (hf : Follows lists seqs seqs' ev)
    (hl : ev ≠ .linked x) : Absent lists σ' seqs' x ∧ ev ≠ .detached x := by
  refine ⟨⟨?_, fun u hu => ?_⟩, fun hd => ?_⟩
  · -- only a link adds a slot to the lists
    cases ev with
    | quiet => rw [show seqs' = seqs from hf]; exact ha.1
    | detached y => rw [show seqs' = seqs from hf]; exact ha.1
    | unlinked y =>
      obtain ⟨e, he, hy, rfl⟩ := hf
      exact fun h => ha.1 ((mem_nodes_erase hc.formed.nodup he hy x).1 h).1
    | linked y =>
      obtain ⟨e, he, hy, rfl⟩ := hf
      intro h
      rcases (mem_nodes_cons hc.formed.nodup he y x).1 h with h | h
      · exact hl (by rw [h])
      · exact ha.1 h
  · rcases hs.pending hu with h | h
    · exact ha.2 u h
    · -- committing the unlink of `x` needs `x` in a list
      subst h
      obtain ⟨e, he, hx, -⟩ := hf
      exact ha.1 (seq_subset_nodes he hx)
  · subst hd
    exact ha.2 t hs.detached.1

/-- Once a slot is absent, no step hands it back until a `link_head` of it commits. -/
theorem Absent.run {σ σ' : System} {es : List (Nat × Event)} (hr : Run lists σ es σ')
    {W : UInt32 → Link} {seqs : Ends → List UInt32} {x : UInt32} (hc : Coherent lists σ W seqs)
    (ha : Absent lists σ seqs x) (hl : ∀ v, (v, Event.linked x) ∉ es) :
    ∀ v, (v, Event.detached x) ∉ es := by
  induction hr generalizing W seqs with
  | nil => exact fun v h => List.not_mem_nil h
  | @cons σ₁ σ₂ σ₃ t ev es hs _ ih =>
    obtain ⟨W', seqs', hc', hf⟩ := hc.step hs
    obtain ⟨ha', hd⟩ := ha.step hc hs hf fun h => hl t (by rw [h]; exact List.mem_cons_self)
    intro v hv
    rcases List.mem_cons.1 hv with h | h
    · exact hd (Prod.mk.inj h).2.symm
    · exact ih hc' ha' (fun v h' => hl v (List.mem_cons_of_mem _ h')) v h

/-- After a slot is handed back it is absent. -/
theorem Coherent.absent_of_detached {σ σ' : System} {W : UInt32 → Link}
    {seqs seqs' : Ends → List UInt32} {t : Nat} {x : UInt32} (hc : Coherent lists σ W seqs)
    (hs : Step lists σ t (.detached x) σ') (hf : Follows lists seqs seqs' (.detached x)) :
    Absent lists σ' seqs' x := by
  obtain ⟨hp, hidle, -⟩ := hs.detached
  -- the slot was the one the answering call carried, so it was outside the lists
  have hxo : x ∈ (σ.threads t).owns := by simp [Thread.owns, Thread.carried_of_pending hp]
  rw [show seqs' = seqs from hf]
  refine ⟨((hc.each t).owns x hxo).1, fun u hu => ?_⟩
  by_cases hut : u = t
  · subst hut
    simp [Thread.pending, hidle] at hu
  · rw [hs.threads_of_ne hut] at hu
    have hxu : x ∈ (σ.threads u).owns := by simp [Thread.owns, Thread.carried_of_pending hu]
    exact hut (hc.owner u t x hxu hxo)

/-- When an unlink of `unlink_tail(e)` commits, its slot is the last one of `e`. -/
theorem Coherent.last_of_tail {σ : System} {W : UInt32 → Link} {seqs : Ends → List UInt32}
    {t : Nat} {e : Ends} {x : UInt32} {seen r : Link} (hc : Coherent lists σ W seqs)
    (hcall : (σ.threads t).call = some (.unlinkTail e (.detach x (.holdRight seen r)))) :
    e ∈ lists ∧ ∃ s, seqs e = s ++ [x] := by
  have hfits := (hc.each t).fits
  rw [Thread.fits_eq hcall] at hfits
  obtain ⟨he, hseen, hlast, -⟩ := hfits
  have hWx : W x = seen := hc.shows.eq_of_pair (show Hold.pair x seen ⊆ σ.holds t by
    rw [show σ.holds t = (σ.threads t).holds from rfl, Thread.holds_eq hcall]
    exact List.subset_cons_self _ _)
  refine ⟨he, hc.formed.last_of_succ (hWx ▸ hseen.1) he ?_⟩
  rw [hWx]
  exact hlast

end Runs

/-! ## The protocol -/

section Protocol

variable {lists : List Ends}

/-- A side reads `locked` exactly when one thread's call in flight holds it. -/
theorem Reach.locked_iff {σ : System} (h : Reach lists σ) (y : UInt32) (d : Side) :
    (σ.arena.link y).side d = locked ↔ ∃! t, ∃ hd ∈ (σ.threads t).holds, hd.cell = (y, d) := by
  obtain ⟨W, seqs, hc⟩ := h.coherent
  exact hc.shows.locked_iff hc.formed.side_ne_locked y d

/-- A step of one thread writes no side another thread holds. -/
theorem Reach.step_keeps_held {σ σ' : System} {t : Nat} {ev : Event} (h : Reach lists σ)
    (hs : Step lists σ t ev σ') {u : Nat} (hu : u ≠ t) {hd : Hold}
    (hm : hd ∈ (σ.threads u).holds) :
    (σ'.arena.link hd.slot).side hd.side = (σ.arena.link hd.slot).side hd.side := by
  obtain ⟨W, seqs, hc⟩ := h.coherent
  obtain ⟨W', seqs', hc'⟩ := (h.step hs).coherent
  have hm' : hd ∈ σ'.holds u := by
    rw [show σ'.holds u = (σ'.threads u).holds from rfl, hs.threads_of_ne hu]
    exact hm
  rw [hc'.shows.reads u hd hm', hc.shows.reads u hd hm]

/-- Between two steps that hand a slot back detached, a `link_head` of it commits. -/
theorem Reach.linked_between {σ σ' : System} {es : List (Nat × Event)} (h : Reach lists σ)
    (hr : Run lists σ es σ') {x : UInt32} {t u : Nat} {A B C : List (Nat × Event)}
    (hes : es = A ++ (t, .detached x) :: (B ++ (u, .detached x) :: C)) :
    ∃ v, (v, Event.linked x) ∈ B := by
  subst hes
  obtain ⟨σ₁, hA, hrest⟩ := Run.split hr
  cases hrest with
  | cons hs hrest =>
    obtain ⟨W, seqs, hc⟩ := (h.run hA).coherent
    obtain ⟨W', seqs', hc', hf⟩ := hc.step hs
    -- after the first hand-back the slot is absent, and stays so until it is linked
    have ha := hc.absent_of_detached hs hf
    by_contra hno
    rw [← List.singleton_append, ← List.append_assoc] at hrest
    obtain ⟨σ₃, hB, -⟩ := Run.split hrest
    refine Absent.run hB hc' ha (fun v hv => ?_) u (List.mem_append_right _ (by simp))
    rcases List.mem_append.1 hv with hv | hv
    · exact hno ⟨v, hv⟩
    · simp at hv

/-- When an unlink commits, its slot is in one of the lists the system stands for, and for
`unlink_tail(e)` it is the last slot of `e`. -/
theorem Reach.unlinked_mem {σ σ' : System} {t : Nat} {x : UInt32} (h : Reach lists σ)
    (hs : Step lists σ t (.unlinked x) σ') :
    ∃ W seqs, Shows σ.arena.link σ.holds W ∧ Formed lists W seqs ∧ ∃ e ∈ lists, x ∈ seqs e ∧
      ∀ e' pc, (σ.threads t).call = some (.unlinkTail e' pc) → e' = e ∧ ∃ s, seqs e = s ++ [x] := by
  obtain ⟨W, seqs, hc⟩ := h.coherent
  obtain ⟨-, seqs', -, e, he, hx, -⟩ := hc.step hs
  refine ⟨W, seqs, hc.shows, hc.formed, e, he, hx, fun e' pc hcall => ?_⟩
  rcases hs.unlinked with ⟨g, seen, r, hcall'⟩ | ⟨e'', seen, r, hcall'⟩
  · rw [hcall] at hcall'
    cases hcall'
  · rw [hcall] at hcall'
    cases hcall'
    obtain ⟨he', s, hs'⟩ := hc.last_of_tail hcall
    have hxe' : x ∈ e'.chain (seqs e') := by simp [hs']
    have hxe : x ∈ e.chain (seqs e) := by simp [hx]
    obtain rfl : e' = e := eq_of_mem_chain hc.formed.nodup he' he hxe' hxe
    exact ⟨rfl, s, hs'⟩

/-- `unlink(x, Some g)` hands back only `x`, and only while the generation of `x` is `g` and
both its sides are held. -/
theorem Reach.detached_generation {σ σ' : System} {t : Nat} {x y g : UInt32} {pc : Detach}
    (h : Reach lists σ) (hcall : (σ.threads t).call = some (.unlink x (some g) pc))
    (hs : Step lists σ t (.detached y) σ') :
    y = x ∧ σ.arena.gen x = g ∧ σ.arena.link x = Link.held := by
  obtain ⟨W, seqs, hc⟩ := h.coherent
  obtain ⟨hp, -, hfin⟩ := hs.detached
  obtain rfl : pc = .finish := hfin x (some g) pc hcall
  have hyx : y = x := by
    simp only [Thread.pending, hcall, Option.bind_some, Call.pending, Detach.carried,
      Option.some.injEq] at hp
    exact hp.symm
  have hfits := (hc.each t).fits
  rw [Thread.fits_eq hcall] at hfits
  have hheld : ∀ d, (σ.arena.link x).side d = Link.held.side d := by
    intro d
    refine (hc.shows.reads t ⟨x, d, listEnd⟩ ?_).trans (by cases d <;> rfl)
    rw [show σ.holds t = (σ.threads t).holds from rfl, Thread.holds_eq hcall]
    cases d <;> simp [Call.holds, Detach.holds, Hold.pair]
  exact ⟨hyx, hfits, Link.eq_of_side hheld⟩

/-- With no call in flight the system may start a run again. -/
theorem Reach.initial_of_quiet {σ : System} (h : Reach lists σ) (hq : Quiet σ) :
    Initial lists σ := by
  obtain ⟨W, seqs, hc⟩ := h.coherent
  exact hc.initial hq

/-- The relinking protocol under any interleaving of its calls: a side reads `locked` exactly
when one call in flight holds it, and no step writes a side another call holds; between two
hand-backs of a slot a `link_head` of it commits, and an unlink takes its slot, at its commit,
from a list, the list of its tail sentinel for `unlink_tail`; `unlink(x, Some g)` hands `x`
back only while it holds `x` and the generation of `x` is `g`; and with no call in flight the
lists are formed and every slot outside them has one owner. -/
theorem relinking_safe (lists : List Ends) :
    (∀ σ, Reach lists σ → ∀ y d,
      (σ.arena.link y).side d = locked ↔ ∃! t, ∃ h ∈ (σ.threads t).holds, h.cell = (y, d)) ∧
    (∀ σ σ' t ev, Reach lists σ → Step lists σ t ev σ' → ∀ u, u ≠ t →
      ∀ h ∈ (σ.threads u).holds,
        (σ'.arena.link h.slot).side h.side = (σ.arena.link h.slot).side h.side) ∧
    (∀ σ σ' es x t u A B C, Reach lists σ → Run lists σ es σ' →
      es = A ++ (t, Event.detached x) :: (B ++ (u, Event.detached x) :: C) →
      ∃ v, (v, Event.linked x) ∈ B) ∧
    (∀ σ σ' t x, Reach lists σ → Step lists σ t (.unlinked x) σ' →
      ∃ W seqs, Shows σ.arena.link σ.holds W ∧ Formed lists W seqs ∧ ∃ e ∈ lists, x ∈ seqs e ∧
        ∀ e' pc, (σ.threads t).call = some (.unlinkTail e' pc) →
          e' = e ∧ ∃ s, seqs e = s ++ [x]) ∧
    (∀ σ σ' t x y g pc, Reach lists σ → (σ.threads t).call = some (.unlink x (some g) pc) →
      Step lists σ t (.detached y) σ' → y = x ∧ σ.arena.gen x = g ∧ σ.arena.link x = Link.held) ∧
    (∀ σ, Reach lists σ → Quiet σ → Initial lists σ) :=
  ⟨fun _ h => h.locked_iff,
    fun _ _ _ _ h hs _ hu _ hm => h.step_keeps_held hs hu hm,
    fun _ _ _ _ _ _ _ _ _ h hr hes => h.linked_between hr hes,
    fun _ _ _ _ h hs => h.unlinked_mem hs,
    fun _ _ _ _ _ _ _ h hcall hs => h.detached_generation hcall hs,
    fun _ h hq => h.initial_of_quiet hq⟩

end Protocol

end ShardCache.Relink
