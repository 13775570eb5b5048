import Mathlib
import ShardCache.Proofs.RelinkShows
/-!
# The invariant of the relinking protocol

`Coherent lists σ W seqs` says what holds in every reachable system `σ`,
for the pairs `W` it stands for and the slots `seqs` of its lists:

* the physical pairs with the holds of the threads stand for `W` (`Shows`);
* `W` forms the lists, with slots `seqs` (`Formed`);
* each thread holds sides of slots of the lists only, or of the one slot it
  carries between the commit and the answer of an unlink (`Local.held`);
* the slots a thread owns, with the one it carries, are outside the lists,
  and no two threads own one slot (`Local.owns`, `Coherent.owner`);
* what a call read before its current place still stands (`Local.fits`).

Every step of a thread moves the system in one of a few ways, each a lemma
here: a step that only reads (`Coherent.relabel`), one that takes a side or
both sides of a slot (`Coherent.grab`, `Coherent.grabPair`), one that puts
back one side or a whole pair (`Coherent.release`, `Coherent.releasePair`),
the two commits (`Coherent.commitUnlink`, `Coherent.commitLink`), and the
owner's rewrite and renewal of a slot outside the lists. They all go through
`Coherent.move`: a step of one thread leaves every other thread as it was,
and changes the lists only at a slot of its own.
-/
namespace ShardCache.Relink

/-! ## What a call carries and what it relies on -/

/-- The slot `unlink_checked` on `x` carries from its commit to its answer. -/
def Detach.carried (x : UInt32) : Detach → Option UInt32
  | .joinLeft _ _ | .joinRight _ _ | .finish => some x
  | _ => none

/-- The slot `unlink_tail` carries: that of the detach of its victim. -/
def Tail.carried : Tail → Option UInt32
  | .read => none
  | .detach victim pc => pc.carried victim

/-- `link_head(e, x)` carries `x` until its commit. -/
def Attach.carried (x : UInt32) : Attach → Option UInt32
  | .joinHead _ _ | .joinFirst _ _ => none
  | _ => some x

/-- The slot a call carries outside every list. -/
def Call.carried : Call → Option UInt32
  | .unlink x _ pc => pc.carried x
  | .unlinkTail _ pc => pc.carried
  | .linkHead _ x pc => pc.carried x

/-- The slot a thread carries. -/
def Thread.carried (th : Thread) : Option UInt32 := th.call.bind Call.carried

/-- The slots a thread owns outside every list: those between its calls and the one its call
carries. -/
def Thread.owns (th : Thread) : List UInt32 := th.owned ++ th.carried.toList

/-- A pair read from a slot of a list: it marks no end and holds no side. -/
def Sound (l : Link) : Prop := l.touchesEnd = false ∧ l.hasLockedSide = false

/-- The test `acc` passed on `x`, taken from the pair `seen`, still stands. -/
def Accept.Passed (acc : Accept) (gen : UInt32 → UInt32) (x : UInt32) (seen : Link) : Prop :=
  match acc with
  | .any => True
  | .generation g => gen x = g
  | .last tail => seen.succ = tail

/-- The generation of `x` is still the one the test asked for. -/
def Accept.Kept (acc : Accept) (gen : UInt32 → UInt32) (x : UInt32) : Prop :=
  match acc with
  | .generation g => gen x = g
  | _ => True

/-- What `unlink_checked` on `x` read before each place and relies on there. -/
def Detach.Fits (acc : Accept) (gen : UInt32 → UInt32) (x : UInt32) : Detach → Prop
  | .read => True
  | .lock seen | .check seen | .refuse seen | .retry seen | .undoLeft seen _ => Sound seen
  | .readLeft seen | .readRight seen => Sound seen ∧ acc.Passed gen x seen
  | .holdLeft seen l =>
    Sound seen ∧ acc.Passed gen x seen ∧ l.succ = x ∧ l.hasLockedSide = false
  | .holdRight seen r =>
    Sound seen ∧ acc.Passed gen x seen ∧ r.pred = x ∧ r.hasLockedSide = false
  | .joinLeft _ _ | .joinRight _ _ | .finish => acc.Kept gen x

/-- What `unlink_tail(e)` relies on: that of the detach of its victim. -/
def Tail.Fits (e : Ends) (gen : UInt32 → UInt32) : Tail → Prop
  | .read => True
  | .detach victim pc => pc.Fits (.last e.tail) gen victim

/-- What `link_head(e, x)` read before each place and relies on there. -/
def Attach.Fits (e : Ends) : Attach → Prop
  | .holdHead first h => h.succ = first ∧ h.hasLockedSide = false
  | .holdFirst _ f => f.pred = e.head ∧ f.hasLockedSide = false
  | _ => True

/-- What a call relies on; a call on a list is on one of the lists. -/
def Call.Fits (lists : List Ends) (gen : UInt32 → UInt32) : Call → Prop
  | .unlink x g pc => pc.Fits (.ofGeneration g) gen x
  | .unlinkTail e pc => e ∈ lists ∧ pc.Fits e gen
  | .linkHead e _ pc => e ∈ lists ∧ pc.Fits e

/-- What a thread's call relies on. -/
def Thread.Fits (lists : List Ends) (gen : UInt32 → UInt32) (th : Thread) : Prop :=
  match th.call with
  | none => True
  | some c => c.Fits lists gen

/-- What holds of one thread, with `ns` the slots of the lists. -/
structure Local (lists : List Ends) (ns : List UInt32) (gen : UInt32 → UInt32) (th : Thread) :
    Prop where
  held : ∀ h ∈ th.holds, h.slot ∈ ns ∨ th.carried = some h.slot
  owns : ∀ y ∈ th.owns, y ∉ ns ∧ y ≠ listEnd ∧ y ≠ locked
  nodup : th.owns.Nodup
  fits : th.Fits lists gen

/-- The invariant: `σ` stands for the pairs `W`, which form the lists with slots `seqs`. -/
structure Coherent (lists : List Ends) (σ : System) (W : UInt32 → Link)
    (seqs : Ends → List UInt32) : Prop where
  shows : Shows σ.arena.link σ.holds W
  formed : Formed lists W seqs
  each : ∀ t, Local lists (nodes lists seqs) σ.arena.gen (σ.threads t)
  owner : ∀ t u y, y ∈ (σ.threads t).owns → y ∈ (σ.threads u).owns → t = u

/-- How the slots of the lists change with an event: an unlink takes its slot out of its
list, a `link_head` puts its slot first in its list, and nothing else changes them. -/
def Follows (lists : List Ends) (seqs seqs' : Ends → List UInt32) : Event → Prop
  | .unlinked x => ∃ e ∈ lists, x ∈ seqs e ∧ seqs' = Function.update seqs e ((seqs e).erase x)
  | .linked x => ∃ e ∈ lists, x ∉ nodes lists seqs ∧ seqs' = Function.update seqs e (x :: seqs e)
  | _ => seqs' = seqs

/-- The slot of an event belongs to thread `t`: it holds both sides of the slot it unlinks,
and owns the slot it links. -/
def Mine (σ : System) (t : Nat) : Event → Prop
  | .unlinked x => ∀ d, ∃ h ∈ σ.holds t, h.cell = (x, d)
  | .linked x => x ∈ (σ.threads t).owns
  | _ => True

/-! ## Threads -/

@[simp] theorem Thread.holds_some (o : List UInt32) (c : Call) :
    (⟨o, some c⟩ : Thread).holds = c.holds := rfl

@[simp] theorem Thread.holds_none (o : List UInt32) : (⟨o, none⟩ : Thread).holds = [] := rfl

@[simp] theorem Thread.carried_some (o : List UInt32) (c : Call) :
    (⟨o, some c⟩ : Thread).carried = c.carried := rfl

@[simp] theorem Thread.carried_none (o : List UInt32) : (⟨o, none⟩ : Thread).carried = none := rfl

@[simp] theorem Thread.fits_some (lists : List Ends) (gen : UInt32 → UInt32) (o : List UInt32)
    (c : Call) : (⟨o, some c⟩ : Thread).Fits lists gen = c.Fits lists gen := rfl

@[simp] theorem Thread.fits_none (lists : List Ends) (gen : UInt32 → UInt32) (o : List UInt32) :
    (⟨o, none⟩ : Thread).Fits lists gen := trivial

theorem Thread.holds_of_call {th : Thread} (h : th.call = none) : th.holds = [] := by
  simp [Thread.holds, h]

theorem Thread.carried_of_call {th : Thread} (h : th.call = none) : th.carried = none := by
  simp [Thread.carried, h]

theorem Thread.owns_of_call {th : Thread} (h : th.call = none) : th.owns = th.owned := by
  simp [Thread.owns, Thread.carried_of_call h]

theorem Thread.holds_eq {th : Thread} {c : Call} (h : th.call = some c) : th.holds = c.holds := by
  simp [Thread.holds, h]

theorem Thread.carried_eq {th : Thread} {c : Call} (h : th.call = some c) :
    th.carried = c.carried := by
  simp [Thread.carried, h]

theorem Thread.fits_eq {lists : List Ends} {gen : UInt32 → UInt32} {th : Thread} {c : Call}
    (h : th.call = some c) : th.Fits lists gen = c.Fits lists gen := by
  simp [Thread.Fits, h]

theorem Thread.owns_congr {th th' : Thread} (ho : th'.owned = th.owned)
    (hc : th'.carried = th.carried) : th'.owns = th.owns := by
  simp [Thread.owns, ho, hc]

theorem System.threads_setThread (σ : System) (t : Nat) (th : Thread) :
    (σ.setThread t th).threads = Function.update σ.threads t th := by
  funext u
  simp [System.setThread, Function.update_apply]

theorem System.holds_update (a : Arena) (threads : Nat → Thread) (t : Nat) (th : Thread) :
    System.holds ⟨a, Function.update threads t th⟩ =
      Function.update (System.holds ⟨a, threads⟩) t th.holds := by
  funext u
  by_cases hu : u = t
  · subst hu
    simp [System.holds]
  · simp [System.holds, Function.update_of_ne hu]

/-! ## Generations -/

theorem Accept.passed_congr {acc : Accept} {gen gen' : UInt32 → UInt32} {x : UInt32}
    {seen : Link} (hg : gen' x = gen x) : acc.Passed gen' x seen ↔ acc.Passed gen x seen := by
  cases acc <;> simp [Accept.Passed, hg]

theorem Accept.kept_congr {acc : Accept} {gen gen' : UInt32 → UInt32} {x : UInt32}
    (hg : gen' x = gen x) : acc.Kept gen' x ↔ acc.Kept gen x := by
  cases acc <;> simp [Accept.Kept, hg]

/-- What a detach relies on reads the generation of its slot only while it holds the slot. -/
theorem Detach.fits_congr {acc : Accept} {gen gen' : UInt32 → UInt32} {x : UInt32} (pc : Detach)
    (hg : ∀ h ∈ pc.holds x, gen' h.slot = gen h.slot) : pc.Fits acc gen' x ↔ pc.Fits acc gen x := by
  have hx : ∀ w, Hold.pair x w ⊆ pc.holds x → gen' x = gen x :=
    fun w hw => hg ⟨x, .pred, w.pred⟩ (hw (by simp [Hold.pair]))
  cases pc with
  | readLeft seen | readRight seen =>
    simp only [Detach.Fits, Accept.passed_congr (hx seen (by simp [Detach.holds]))]
  | holdLeft seen l | holdRight seen r =>
    simp only [Detach.Fits, Accept.passed_congr (hx seen (by simp [Detach.holds]))]
  | joinLeft seen c | joinRight seen c | finish =>
    simp only [Detach.Fits, Accept.kept_congr (hx Link.detached (by simp [Detach.holds]))]
  | _ => rfl

theorem Thread.fits_congr {lists : List Ends} {gen gen' : UInt32 → UInt32} (th : Thread)
    (hg : ∀ h ∈ th.holds, gen' h.slot = gen h.slot) : th.Fits lists gen' ↔ th.Fits lists gen := by
  rcases th with ⟨o, _ | c⟩
  · rfl
  · rw [Thread.holds_some] at hg
    cases c with
    | unlink x g pc => exact Detach.fits_congr pc hg
    | unlinkTail e pc =>
      cases pc with
      | read => rfl
      | detach v pc => exact and_congr_right fun _ => Detach.fits_congr pc hg
    | linkHead e x pc => rfl

/-! ## One thread moves -/

section Move

variable {lists : List Ends} {σ : System} {W : UInt32 → Link} {seqs : Ends → List UInt32}

/-- A thread stays as it was while the slots of the lists change only away from the slots it
holds or owns. -/
theorem Local.frame {ns ns' : List UInt32} {gen : UInt32 → UInt32} {th : Thread}
    (hl : Local lists ns gen th) (hheld : ∀ h ∈ th.holds, (h.slot ∈ ns' ↔ h.slot ∈ ns))
    (hown : ∀ y ∈ th.owns, (y ∈ ns' ↔ y ∈ ns)) : Local lists ns' gen th := by
  refine ⟨fun h hh => ?_, fun y hy => ?_, hl.nodup, hl.fits⟩
  · rw [hheld h hh]
    exact hl.held h hh
  · rw [hown y hy]
    exact hl.owns y hy

/-- A step of thread `t` to `th'` and the arena `a'`, in which the system comes to stand for
`W'` with lists `seqs'` as the event says, keeps the invariant, if `t` comes out as a thread
should and gets no slot that was another thread's. -/
theorem Coherent.move (hc : Coherent lists σ W seqs) {t : Nat} {ev : Event} {a' : Arena}
    {th' : Thread} {W' : UInt32 → Link} {seqs' : Ends → List UInt32}
    (hs : Shows a'.link (Function.update σ.holds t th'.holds) W')
    (hf : Formed lists W' seqs') (hev : Follows lists seqs seqs' ev) (hmine : Mine σ t ev)
    (hgen : a'.gen = σ.arena.gen) (hl : Local lists (nodes lists seqs') a'.gen th')
    (hown : ∀ y ∈ th'.owns, y ∈ (σ.threads t).owns ∨ y ∈ nodes lists seqs) :
    Coherent lists ⟨a', Function.update σ.threads t th'⟩ W' seqs' := by
  -- the lists change only at the slot of the event, which no other thread holds or owns
  have hkeep : ∀ u, u ≠ t → ∀ y, ((∃ h ∈ σ.holds u, h.slot = y) ∨ y ∈ (σ.threads u).owns) →
      (y ∈ nodes lists seqs' ↔ y ∈ nodes lists seqs) := by
    intro u hu y hy
    cases ev with
    | quiet => rw [show seqs' = seqs from hev]
    | detached x => rw [show seqs' = seqs from hev]
    | unlinked x =>
      obtain ⟨e, he, hx, rfl⟩ := hev
      rw [mem_nodes_erase hc.formed.nodup he hx]
      have hyx : y ≠ x := by
        rintro rfl
        rcases hy with ⟨h, hh, rfl⟩ | hy
        · obtain ⟨h', hh', hc'⟩ := hmine h.side
          exact hc.shows.apart t u (Ne.symm hu) h' hh' h hh hc'
        · exact ((hc.each u).owns _ hy).1 (seq_subset_nodes he hx)
      simp [hyx]
    | linked x =>
      obtain ⟨e, he, hx, rfl⟩ := hev
      rw [mem_nodes_cons hc.formed.nodup he]
      have hyx : y ≠ x := by
        rintro rfl
        rcases hy with ⟨h, hh, rfl⟩ | hy
        · rcases (hc.each u).held h hh with hn | hcar
          · exact hx hn
          · exact hu (hc.owner u t h.slot (by simp [Thread.owns, hcar]) hmine)
        · exact hu (hc.owner u t y hy hmine)
      simp [hyx]
  refine ⟨?_, hf, ?_, ?_⟩
  · rw [System.holds_update]
    exact hs
  · intro u
    dsimp only
    by_cases hu : u = t
    · subst hu
      rw [Function.update_self]
      exact hl
    · rw [Function.update_of_ne hu, hgen]
      exact (hc.each u).frame (fun h hh => hkeep u hu h.slot (.inl ⟨h, hh, rfl⟩))
        (fun y hy => hkeep u hu y (.inr hy))
  · intro u v y hyu hyv
    dsimp only at hyu hyv
    by_cases hu : u = t
    · by_cases hv : v = t
      · exact hu.trans hv.symm
      · subst hu
        rw [Function.update_self] at hyu
        rw [Function.update_of_ne hv] at hyv
        rcases hown y hyu with h | h
        · exact hc.owner u v y h hyv
        · exact absurd h ((hc.each v).owns y hyv).1
    · rw [Function.update_of_ne hu] at hyu
      by_cases hv : v = t
      · subst hv
        rw [Function.update_self] at hyv
        rcases hown y hyv with h | h
        · exact hc.owner u v y hyu h
        · exact absurd h ((hc.each u).owns y hyu).1
      · rw [Function.update_of_ne hv] at hyv
        exact hc.owner u v y hyu hyv

/-- A step of `t` that keeps the lists and, up to order, what `t` owns keeps the invariant
once the new holds are shown and each slot `t` then holds is a slot of the lists or the one it
carries. -/
theorem Coherent.keep (hc : Coherent lists σ W seqs) {t : Nat} {a' : Arena} {th' : Thread}
    (hs : Shows a'.link (Function.update σ.holds t th'.holds) W) (hgen : a'.gen = σ.arena.gen)
    (hheld : ∀ h ∈ th'.holds, h.slot ∈ nodes lists seqs ∨ th'.carried = some h.slot)
    (ho : th'.owns.Perm (σ.threads t).owns) (hfit : th'.Fits lists σ.arena.gen) :
    Coherent lists ⟨a', Function.update σ.threads t th'⟩ W seqs := by
  have hl := hc.each t
  refine hc.move hs hc.formed (show Follows lists seqs seqs .quiet from rfl)
    (show Mine σ t .quiet from trivial) hgen ?_ fun y hy => .inl (ho.subset hy)
  rw [hgen]
  exact ⟨hheld, fun y hy => hl.owns y (ho.subset hy), ho.nodup_iff.2 hl.nodup, hfit⟩

/-- A step that writes nothing and leaves what `t` holds and owns as it was. -/
theorem Coherent.relabel (hc : Coherent lists σ W seqs) {t : Nat} {th' : Thread}
    (hh : th'.holds = (σ.threads t).holds) (hcar : th'.carried = (σ.threads t).carried)
    (ho : th'.owned = (σ.threads t).owned) (hfit : th'.Fits lists σ.arena.gen) :
    Coherent lists ⟨σ.arena, Function.update σ.threads t th'⟩ W seqs := by
  refine hc.keep ?_ rfl ?_ (.of_eq (Thread.owns_congr ho hcar)) hfit
  · rw [hh, show (σ.threads t).holds = σ.holds t from rfl, Function.update_eq_self]
    exact hc.shows
  · rw [hh, hcar]
    exact (hc.each t).held

/-- A step that writes nothing, holds nothing before or after, and only moves slots between
what `t` owns and what it carries. -/
theorem Coherent.reown (hc : Coherent lists σ W seqs) {t : Nat} {th' : Thread}
    (ht : (σ.threads t).holds = []) (hh : th'.holds = [])
    (ho : th'.owns.Perm (σ.threads t).owns) (hfit : th'.Fits lists σ.arena.gen) :
    Coherent lists ⟨σ.arena, Function.update σ.threads t th'⟩ W seqs := by
  refine hc.keep ?_ rfl ?_ ho hfit
  · rw [hh, ← ht, show (σ.threads t).holds = σ.holds t from rfl, Function.update_eq_self]
    exact hc.shows
  · rw [hh]
    intro h hm
    cases hm

/-- A compare-exchange of `t` takes side `d` of a slot `y` of the lists. -/
theorem Coherent.grab (hc : Coherent lists σ W seqs) {t : Nat} {th' : Thread} {y : UInt32}
    {d : Side} (hy : (σ.arena.link y).side d ≠ locked) (hn : y ∈ nodes lists seqs)
    (hh : th'.holds = ⟨y, d, (σ.arena.link y).side d⟩ :: (σ.threads t).holds)
    (hcar : th'.carried = (σ.threads t).carried) (ho : th'.owned = (σ.threads t).owned)
    (hfit : th'.Fits lists σ.arena.gen) :
    Coherent lists ⟨σ.arena.store y ((σ.arena.link y).setSide d locked),
      Function.update σ.threads t th'⟩ W seqs := by
  refine hc.keep ?_ rfl ?_ (.of_eq (Thread.owns_congr ho hcar)) hfit
  · rw [hh, link_store]
    exact hc.shows.grab t y d hy
  · rw [hh, hcar]
    intro h hm
    rcases List.mem_cons.1 hm with rfl | hm
    · exact .inl hn
    · exact (hc.each t).held h hm

/-- A compare-exchange of `t` takes both sides of `x`, which read a pair inside a list. -/
theorem Coherent.grabPair (hc : Coherent lists σ W seqs) {t : Nat} {th' : Thread} {x : UInt32}
    (ht : (σ.threads t).holds = []) (hx : Sound (σ.arena.link x))
    (hh : th'.holds = Hold.pair x (σ.arena.link x))
    (hcar : th'.carried = (σ.threads t).carried) (ho : th'.owned = (σ.threads t).owned)
    (hfit : th'.Fits lists σ.arena.gen) :
    Coherent lists ⟨σ.arena.store x Link.held, Function.update σ.threads t th'⟩ W seqs := by
  -- both sides of `x` are free, so `x` stands for the pair it reads, which marks no end
  have hWx : W x = σ.arena.link x :=
    Link.eq_of_side fun d => hc.shows.eq_of_unlocked (Link.side_ne_locked hx.2 d)
  have hn : x ∈ nodes lists seqs := hc.formed.mem_of_inner (by rw [hWx]; exact hx.1)
  refine hc.keep ?_ rfl ?_ (.of_eq (Thread.owns_congr ho hcar)) hfit
  · rw [hh, link_store]
    exact hc.shows.grabPair ht hx.2
  · rw [hh]
    intro h hm
    rcases mem_pair.1 hm with rfl | rfl <;> exact .inl hn

/-- A store of `t` puts back the word of the first side it holds. -/
theorem Coherent.release (hc : Coherent lists σ W seqs) {t : Nat} {th' : Thread} {y : UInt32}
    {d : Side} {v : UInt32} (ht : (σ.threads t).holds = ⟨y, d, v⟩ :: th'.holds)
    (hcar : th'.carried = (σ.threads t).carried) (ho : th'.owned = (σ.threads t).owned)
    (hfit : th'.Fits lists σ.arena.gen) :
    Coherent lists ⟨σ.arena.store y ((σ.arena.link y).setSide d v),
      Function.update σ.threads t th'⟩ W seqs := by
  refine hc.keep ?_ rfl ?_ (.of_eq (Thread.owns_congr ho hcar)) hfit
  · rw [link_store]
    exact hc.shows.release ht
  · intro h hm
    rw [hcar]
    exact (hc.each t).held h (by rw [ht]; exact List.mem_cons_of_mem _ hm)

/-- A store of `t` puts the pair `w` back into both sides of `x`; `t` then holds nothing,
and may have been handed `x`. -/
theorem Coherent.releasePair (hc : Coherent lists σ W seqs) {t : Nat} {th' : Thread}
    {x : UInt32} {w : Link} (ht : (σ.threads t).holds = Hold.pair x w) (hh : th'.holds = [])
    (ho : th'.owns.Perm (σ.threads t).owns) (hfit : th'.Fits lists σ.arena.gen) :
    Coherent lists ⟨σ.arena.store x w, Function.update σ.threads t th'⟩ W seqs := by
  refine hc.keep ?_ rfl ?_ ho hfit
  · rw [hh, link_store]
    exact hc.shows.releasePair ht
  · rw [hh]
    intro h hm
    cases hm

/-- The commit of an unlink of `x`: holding both sides of `x` and the successor side of its
left neighbour, the call takes the predecessor side of its right neighbour, which read `x`.
The system then stands for the lists with `x` cut out, and the call carries `x`. -/
theorem Coherent.commitUnlink (hc : Coherent lists σ W seqs) {t : Nat} {th' : Thread}
    {x : UInt32} {seen : Link}
    (ht : (σ.threads t).holds = ⟨seen.pred, .succ, x⟩ :: Hold.pair x seen)
    (hcar0 : (σ.threads t).carried = none) (hseen : Sound seen)
    (hr : (σ.arena.link seen.succ).pred = x)
    (hh : th'.holds = ⟨seen.pred, .succ, seen.succ⟩ :: ⟨seen.succ, .pred, seen.pred⟩ ::
      Hold.pair x Link.detached)
    (hcar : th'.carried = some x) (ho : th'.owned = (σ.threads t).owned)
    (hfit : th'.Fits lists σ.arena.gen) :
    ∃ seqs', Coherent lists ⟨σ.arena.store seen.succ ((σ.arena.link seen.succ).withPred locked),
      Function.update σ.threads t th'⟩ (cutOut W x) seqs' ∧
      Follows lists seqs seqs' (.unlinked x) := by
  have hl := hc.each t
  have hWx : W x = seen :=
    hc.shows.eq_of_pair (show Hold.pair x seen ⊆ σ.holds t by
      rw [show σ.holds t = (σ.threads t).holds from rfl, ht]
      exact List.subset_cons_self _ _)
  have hinner : (W x).touchesEnd = false := hWx ▸ hseen.1
  obtain ⟨e, he, hxe, hf'⟩ := hc.formed.cutOut hinner
  obtain ⟨-, -, hLn, hRn, hxn, hLx, hRx, hLR⟩ := hc.formed.around hinner
  have hmem := mem_nodes_erase hc.formed.nodup he hxe
  have hxl : x ≠ locked := (hc.formed.named x hxn).2
  have hown0 : (σ.threads t).owns = (σ.threads t).owned := by simp [Thread.owns, hcar0]
  have hown : th'.owns = (σ.threads t).owned ++ [x] := by simp [Thread.owns, ho, hcar]
  -- take the right neighbour's predecessor side, then let the held sides stand for the cut
  have hgrab := hc.shows.grab t seen.succ .pred (by rw [Link.side_pred, hr]; exact hxl)
  rw [Link.side_pred, hr] at hgrab
  have hperm : (th'.holds.map Hold.cell).Perm
      ((Function.update σ.holds t (⟨seen.succ, .pred, x⟩ :: σ.holds t) t).map Hold.cell) := by
    rw [Function.update_self, hh, show σ.holds t = (σ.threads t).holds from rfl, ht]
    exact List.Perm.swap _ _ _
  have hval : ∀ h ∈ th'.holds, (cutOut W x h.slot).side h.side = h.value := by
    rw [hh]
    intro h hm
    simp only [Hold.pair, List.mem_cons, List.not_mem_nil, or_false] at hm
    rcases hm with rfl | rfl | rfl | rfl
    · simpa [hWx] using cutOut_left hLx
    · simpa [hWx] using cutOut_right hRx hLR
    · simp [cutOut_self]
    · simp [cutOut_self]
  have hout : ∀ y d, (∀ h ∈ Function.update σ.holds t (⟨seen.succ, .pred, x⟩ :: σ.holds t) t,
      h.cell ≠ (y, d)) → (cutOut W x y).side d = (W y).side d := by
    intro y d hy
    rw [Function.update_self, show σ.holds t = (σ.threads t).holds from rfl, ht] at hy
    refine cutOut_side ?_ ?_ ?_
    · rintro rfl
      cases d
      · exact hy ⟨y, .pred, seen.pred⟩ (by simp [Hold.pair]) rfl
      · exact hy ⟨y, .succ, seen.succ⟩ (by simp [Hold.pair]) rfl
    · rw [hWx]
      exact fun hc' => hy ⟨seen.pred, .succ, x⟩ (by simp) (by simp [hc'])
    · rw [hWx]
      exact fun hc' => hy ⟨seen.succ, .pred, x⟩ (by simp) (by simp [hc'])
  have hs' := hgrab.restate hperm hval hout
  rw [Function.update_idem] at hs'
  refine ⟨_, hc.move ?_ hf' (show Follows lists seqs _ (.unlinked x) from ⟨e, he, hxe, rfl⟩) ?_
    rfl ?_ ?_, ⟨e, he, hxe, rfl⟩⟩
  · exact hs'
  · intro d
    rw [show σ.holds t = (σ.threads t).holds from rfl, ht]
    cases d <;> simp [Hold.pair]
  · refine ⟨?_, ?_, ?_, hfit⟩
    · rw [hh, hcar]
      intro h hm
      simp only [Hold.pair, List.mem_cons, List.not_mem_nil, or_false] at hm
      rcases hm with rfl | rfl | rfl | rfl
      · exact .inl ((hmem _).2 ⟨hWx ▸ hLn, hWx ▸ hLx⟩)
      · exact .inl ((hmem _).2 ⟨hWx ▸ hRn, hWx ▸ hRx⟩)
      · exact .inr rfl
      · exact .inr rfl
    · rw [hown]
      intro y hy
      rcases List.mem_append.1 hy with hy | hy
      · obtain ⟨hyn, hy2⟩ := hl.owns y (hown0 ▸ hy)
        exact ⟨fun h => hyn ((hmem y).1 h).1, hy2⟩
      · rw [List.mem_singleton] at hy
        subst hy
        exact ⟨fun h => ((hmem y).1 h).2 rfl, (hc.formed.named y hxn).1, hxl⟩
    · rw [hown, List.nodup_append]
      refine ⟨hown0 ▸ hl.nodup, List.nodup_singleton x, ?_⟩
      intro y hy z hz hyz
      rw [List.mem_singleton] at hz
      subst hz hyz
      exact (hl.owns y (hown0 ▸ hy)).1 hxn
  · intro y hy
    rw [hown] at hy
    rcases List.mem_append.1 hy with hy | hy
    · exact .inl (hown0 ▸ hy)
    · rw [List.mem_singleton] at hy
      subst hy
      exact .inr hxn

/-- The commit of `link_head(e, x)`: holding the successor side of the head sentinel and the
predecessor side of the slot after it, the call writes the pair of the slot `x` it carries.
The system then stands for the lists with `x` first in `e`. -/
theorem Coherent.commitLink (hc : Coherent lists σ W seqs) {t : Nat} {th' : Thread} {e : Ends}
    {x first : UInt32} (he : e ∈ lists)
    (ht : (σ.threads t).holds = [⟨first, .pred, e.head⟩, ⟨e.head, .succ, first⟩])
    (hcar0 : (σ.threads t).carried = some x)
    (hh : th'.holds = [⟨e.head, .succ, x⟩, ⟨first, .pred, x⟩]) (hcar : th'.carried = none)
    (ho : th'.owned = (σ.threads t).owned) (hfit : th'.Fits lists σ.arena.gen) :
    ∃ seqs', Coherent lists ⟨σ.arena.store x ⟨e.head, first⟩, Function.update σ.threads t th'⟩
      (spliceIn W e.head x) seqs' ∧ Follows lists seqs seqs' (.linked x) := by
  have hl := hc.each t
  have hxo : x ∈ (σ.threads t).owns := by simp [Thread.owns, hcar0]
  have hown0 : (σ.threads t).owns = (σ.threads t).owned ++ [x] := by simp [Thread.owns, hcar0]
  have hown : th'.owns = (σ.threads t).owned := by simp [Thread.owns, ho, hcar]
  obtain ⟨hxn, hxe, hxl⟩ := hl.owns x hxo
  have hHF : (W e.head).succ = first :=
    hc.shows.value t ⟨e.head, .succ, first⟩ (show _ ∈ (σ.threads t).holds by simp [ht])
  have hFn : first ∈ nodes lists seqs := hHF ▸ hc.formed.head_succ_mem he
  have hFH : first ≠ e.head := hHF ▸ hc.formed.head_succ_ne he
  have hHn : e.head ∈ nodes lists seqs := head_mem_nodes he
  have hxH : e.head ≠ x := fun h => hxn (h ▸ hHn)
  have hxF : first ≠ x := fun h => hxn (h ▸ hFn)
  -- no thread holds a side of `x`: it is outside the lists, and `t` carries it
  have hfree : ∀ u, ∀ h ∈ σ.holds u, h.slot ≠ x := by
    intro u h hm hx
    rcases (hc.each u).held h hm with hn | hcu
    · exact hxn (hx ▸ hn)
    · have hu : u = t := hc.owner u t x (by simp [Thread.owns, hcu, hx]) hxo
      subst hu
      rw [show σ.holds u = (σ.threads u).holds from rfl, ht] at hm
      simp only [List.mem_cons, List.not_mem_nil, or_false] at hm
      rcases hm with rfl | rfl
      · exact hxF hx
      · exact hxH hx
  have hperm : (th'.holds.map Hold.cell).Perm (σ.holds t |>.map Hold.cell) := by
    rw [hh, show σ.holds t = (σ.threads t).holds from rfl, ht]
    exact List.Perm.swap _ _ _
  have hval : ∀ h ∈ th'.holds, (spliceIn W e.head x h.slot).side h.side = h.value := by
    rw [hh]
    intro h hm
    simp only [List.mem_cons, List.not_mem_nil, or_false] at hm
    rcases hm with rfl | rfl
    · exact spliceIn_head hxH
    · have : (spliceIn W e.head x (W e.head).succ).pred = x :=
        spliceIn_next (by rw [hHF]; exact hxF) (by rw [hHF]; exact hFH)
      simpa [hHF] using this
  have hout : ∀ y d, (∀ h ∈ σ.holds t, h.cell ≠ (y, d)) →
      (spliceIn W e.head x y).side d = (setLink W x ⟨e.head, first⟩ y).side d := by
    intro y d hy
    rw [show σ.holds t = (σ.threads t).holds from rfl, ht] at hy
    by_cases hyx : y = x
    · subst hyx
      rw [spliceIn_self, setLink_self, hHF]
    · rw [setLink_of_ne _ _ hyx]
      refine spliceIn_side hyx (fun hc' => hy ⟨e.head, .succ, first⟩ (by simp) (by simp [hc'])) ?_
      rw [hHF]
      exact fun hc' => hy ⟨first, .pred, e.head⟩ (by simp) (by simp [hc'])
  have hs' := (hc.shows.write ⟨e.head, first⟩ hfree).restate hperm hval hout
  refine ⟨_, hc.move ?_ (hc.formed.spliceIn he hxn hxe hxl)
    (show Follows lists seqs _ (.linked x) from ⟨e, he, hxn, rfl⟩) hxo rfl ?_ ?_,
    ⟨e, he, hxn, rfl⟩⟩
  · rw [link_store]
    exact hs'
  · refine ⟨?_, ?_, ?_, hfit⟩
    · rw [hh]
      intro h hm
      simp only [List.mem_cons, List.not_mem_nil, or_false] at hm
      rcases hm with rfl | rfl
      · exact .inl ((mem_nodes_cons hc.formed.nodup he x _).2 (.inr hHn))
      · exact .inl ((mem_nodes_cons hc.formed.nodup he x _).2 (.inr hFn))
    · rw [hown]
      intro y hy
      obtain ⟨hyn, hy2⟩ := hl.owns y (by rw [hown0]; exact List.mem_append_left _ hy)
      refine ⟨fun h => ?_, hy2⟩
      rcases (mem_nodes_cons hc.formed.nodup he x y).1 h with rfl | h
      · have hnd := hl.nodup
        rw [hown0, List.nodup_append] at hnd
        exact hnd.2.2 y hy y (List.mem_singleton.2 rfl) rfl
      · exact hyn h
    · rw [hown]
      have hnd := hl.nodup
      rw [hown0] at hnd
      exact hnd.sublist (List.sublist_append_left _ _)
  · intro y hy
    rw [hown] at hy
    exact .inl (by rw [hown0]; exact List.mem_append_left _ hy)

end Move

/-! ## Starting and ending -/

section Ends

variable {lists : List Ends} {σ : System} {W : UInt32 → Link} {seqs : Ends → List UInt32}

/-- A system that may start a run stands for its own pairs. -/
theorem Initial.coherent (h : Initial lists σ) : ∃ seqs, Coherent lists σ σ.arena.link seqs := by
  obtain ⟨seqs, hf, hout, huniq, hnd⟩ := h.formed
  have hnone : ∀ t, σ.holds t = [] := fun t => Thread.holds_of_call (h.quiet t)
  have hown : ∀ t, (σ.threads t).owns = (σ.threads t).owned :=
    fun t => Thread.owns_of_call (h.quiet t)
  refine ⟨seqs, ⟨?_, hf, fun t => ⟨?_, ?_, ?_, ?_⟩, ?_⟩⟩
  · exact ⟨by simp [hnone], by simp [hnone], by simp [hnone], by simp [hnone],
      fun _ _ _ => rfl⟩
  · simp [Thread.holds_of_call (h.quiet t)]
  · rw [hown]
    exact hout t
  · rw [hown]
    exact hnd t
  · simp [Thread.Fits, h.quiet t]
  · intro t u y hy hy'
    rw [hown] at hy hy'
    exact huniq t u y hy hy'

/-- With no call in flight a coherent system may start a run: nothing is held, so its pairs
are the ones it stands for. -/
theorem Coherent.initial (hc : Coherent lists σ W seqs) (hq : Quiet σ) : Initial lists σ := by
  have hnone : ∀ t, σ.holds t = [] := fun t => Thread.holds_of_call (hq t)
  have hown : ∀ t, (σ.threads t).owns = (σ.threads t).owned :=
    fun t => Thread.owns_of_call (hq t)
  have hlink : σ.arena.link = W :=
    funext fun y => Link.eq_of_side fun d => hc.shows.free y d (by simp [hnone])
  refine ⟨hq, seqs, hlink ▸ hc.formed, fun t x hx => ?_, fun t u x hx hx' => ?_, fun t => ?_⟩
  · exact (hc.each t).owns x (by rw [hown]; exact hx)
  · exact hc.owner t u x (by rw [hown]; exact hx) (by rw [hown]; exact hx')
  · have := (hc.each t).nodup
    rwa [hown] at this

/-- No thread holds a side of a slot an idle thread owns. -/
theorem Coherent.not_held (hc : Coherent lists σ W seqs) {t : Nat} {x : UInt32}
    (hidle : (σ.threads t).call = none) (hx : x ∈ (σ.threads t).owned) :
    ∀ u, ∀ h ∈ σ.holds u, h.slot ≠ x := by
  have hxo : x ∈ (σ.threads t).owns := by rw [Thread.owns_of_call hidle]; exact hx
  intro u h hm hsx
  rcases (hc.each u).held h hm with hn | hcu
  · exact ((hc.each t).owns x hxo).1 (hsx ▸ hn)
  · have hu : u = t := hc.owner u t x (by simp [Thread.owns, hcu, hsx]) hxo
    subst hu
    rw [show σ.holds u = (σ.threads u).holds from rfl, Thread.holds_of_call hidle] at hm
    cases hm

/-- The owner of a slot outside the lists rewrites its pair: the system stands for the pairs
with that one rewritten. -/
theorem Coherent.rewrite (hc : Coherent lists σ W seqs) {t : Nat} {x : UInt32} {w : Link}
    (hidle : (σ.threads t).call = none) (hx : x ∈ (σ.threads t).owned)
    (hwe : w.touchesEnd = true) (hwl : w.hasLockedSide = false) :
    Coherent lists { σ with arena := σ.arena.store x w } (setLink W x w) seqs := by
  have hxn := ((hc.each t).owns x (by rw [Thread.owns_of_call hidle]; exact hx)).1
  exact ⟨hc.shows.write w (hc.not_held hidle hx), hc.formed.rewrite hxn hwe hwl, hc.each,
    hc.owner⟩

/-- The owner of a slot outside the lists renews its generation: no call relies on it. -/
theorem Coherent.renew (hc : Coherent lists σ W seqs) {t : Nat} {x : UInt32}
    (hidle : (σ.threads t).call = none) (hx : x ∈ (σ.threads t).owned) :
    Coherent lists { σ with arena := σ.arena.renew x } W seqs := by
  refine ⟨hc.shows, hc.formed, fun u => ?_, hc.owner⟩
  have hl := hc.each u
  refine ⟨hl.held, hl.owns, hl.nodup, (Thread.fits_congr _ fun h hm => ?_).2 hl.fits⟩
  have hne := hc.not_held hidle hx u h hm
  simp [Arena.renew, hne]

end Ends

end ShardCache.Relink
