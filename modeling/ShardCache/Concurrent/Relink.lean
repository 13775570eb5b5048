import Mathlib.Data.List.Chain
import ShardCache.Shard
/-!
# Relinking under interleaving

The recency lists are threaded through the link pairs of the arena. Any
thread may take a slot out of any list (a promotion, an eviction, a removal),
while a list's owner puts slots at its head. Three calls change a list, and
each of them holds three sides before it writes anything:

```text
  unlink(x):     L.succ ─ x.(pred, succ) ─ R.pred      → L ◄──► R
  link_head(x):  H.succ ─ F.pred                       → H ◄──► x ◄──► F
```

A side is held while it reads `locked`. A call that loses a race puts back
every side it took and starts again; a slot with one side held refuses to
have its other side taken. Nothing here is a lock in the usual sense: the
calls take sides one compare-exchange at a time.

This module states the three calls one atomic access at a time, so that a
run is any interleaving of the accesses of many threads:

* `Arena`: the link pair and the generation word of every slot id.
* `Detach`: the places of `unlink_checked`, shared by `unlink(x, g)` and
  `unlink_tail`; `Accept` is the test it runs once it holds its slot.
* `Tail` and `Attach`: the places of `unlink_tail` and `link_head`.
* `Arena.update`: one access of the compare-exchange loop that puts a held
  side back with a value.
* `Step`: one step of one thread: starting a call, one access of the call in
  flight, or a change the owner of a slot outside every list makes to it
  (pushing it on or popping it off its free list, renewing its generation).

A weak compare-exchange may fail although the pair is unchanged; `spurious`
says when it does. The events of a step record the moments that matter to
the lists: an unlink commits, a call hands a detached slot back, a
`link_head` commits.

`Formed` says when the pairs of an arena form the given lists, and `Initial`
when a system may start: its lists formed, no call in flight, and every slot
outside the lists owned by at most one thread.

A table of geometry `c` gives shard `s` the sentinels `Config.ends c s`, the
two ids after the data slots and the sentinels of the shards before it;
`Config.arenaIds` lists every id the table hands out.
-/
namespace ShardCache

/-- A side of a link pair. -/
inductive Side where
  | pred
  | succ
deriving DecidableEq, Repr

namespace Link

/-- The pair of a slot whose two sides are held.
mirrors src/src/ds/links.rs:55-56 -/
def held : Link := ⟨locked, locked⟩

/-- One side of a pair. -/
def side (l : Link) : Side → UInt32
  | .pred => l.pred
  | .succ => l.succ

/-- The pair with one side replaced. -/
def setSide (l : Link) : Side → UInt32 → Link
  | .pred, v => l.withPred v
  | .succ, v => l.withSucc v

end Link

namespace Relink

/-- The words the calls share: the link pair and the generation of every slot id.
mirrors src/src/ds/slot_arena.rs:34-54 -/
structure Arena where
  link : UInt32 → Link
  gen : UInt32 → UInt32

namespace Arena

/-- Stores a pair.
mirrors src/src/ds/links.rs:136-138 -/
def store (a : Arena) (y : UInt32) (w : Link) : Arena :=
  { a with link := fun z => if z = y then w else a.link z }

/-- One access of `AtomicLinks::update` putting `v` into side `d` of slot `y`: with no pair
seen yet, the load; otherwise a weak compare-exchange from the pair `cur` last seen. The
result is the arena and `none` once the write went through, else the pair now seen, from
which the loop tries again.
mirrors src/src/ds/links.rs:168-181 -/
def update (a : Arena) (spurious : Bool) (y : UInt32) (d : Side) (v : UInt32) :
    Option Link → Arena × Option Link
  | none => (a, some (a.link y))
  | some cur =>
    if a.link y = cur ∧ spurious = false then (a.store y (cur.setSide d v), none)
    else (a, some (a.link y))

/-- Adds one to a slot's generation, as claiming the slot for a new entry does.
mirrors src/src/ds/slot_arena.rs:100-109 -/
def renew (a : Arena) (x : UInt32) : Arena :=
  { a with gen := fun z => if z = x then a.gen z + 1 else a.gen z }

end Arena

/-- What happened in a step, as far as the lists are concerned. -/
inductive Event where
  | quiet
  /-- An unlink of the slot committed: it left its list. -/
  | unlinked (x : UInt32)
  /-- A call handed the slot back detached (`true`, or `some` of it). -/
  | detached (x : UInt32)
  /-- A `link_head` of the slot committed: it joined the list. -/
  | linked (x : UInt32)
deriving DecidableEq, Repr

/-- The test `unlink_checked` runs once it holds its slot. -/
inductive Accept where
  /-- `unlink(x, None)`: any slot in a list. -/
  | any
  /-- `unlink(x, Some g)`: the slot's generation is still `g`. -/
  | generation (g : UInt32)
  /-- `unlink_tail`: the slot was, when taken, the last one before this tail sentinel. -/
  | last (tail : UInt32)
deriving DecidableEq, Repr

/-- The test of `unlink(x, g)`.
mirrors src/src/policy/lru.rs:409-415 -/
def Accept.ofGeneration : Option UInt32 → Accept
  | none => .any
  | some g => .generation g

/-- Runs the test on slot `x`, whose pair read `seen` before it was taken. The generation
test is a load of the generation word.
mirrors src/src/ds/intrusive_list.rs:168-206 -/
def Accept.test (acc : Accept) (a : Arena) (x : UInt32) (seen : Link) : Bool :=
  match acc with
  | .any => true
  | .generation g => a.gen x == g
  | .last tail => seen.succ == tail

/-- Where a call of `unlink_checked` on a slot `x` is. `seen` is the pair of `x` read just
before it was taken; its sides are the neighbours `left` and `right`.
mirrors src/src/ds/intrusive_list.rs:168-206 -/
inductive Detach where
  /-- Load the pair of `x`. -/
  | read
  /-- Weak compare-exchange of `seen` for the held pair. -/
  | lock (seen : Link)
  /-- Run the acceptance test, `x` held. -/
  | check (seen : Link)
  /-- The test failed: store `seen` back and answer `false`. -/
  | refuse (seen : Link)
  /-- `hold_succ(left, x)`: load the pair of `left`. -/
  | readLeft (seen : Link)
  /-- `hold_succ(left, x)`: compare-exchange the pair `l` read for it with `succ` held. -/
  | holdLeft (seen l : Link)
  /-- A race was lost: store `seen` back and start again. -/
  | retry (seen : Link)
  /-- `hold_pred(right, x)`: load the pair of `right`. -/
  | readRight (seen : Link)
  /-- `hold_pred(right, x)`: compare-exchange the pair `r` read for it with `pred` held. -/
  | holdRight (seen r : Link)
  /-- `put_succ(left, x)` after losing `right`, then `retry`. -/
  | undoLeft (seen : Link) (cur : Option Link)
  /-- `put_succ(left, right)`. -/
  | joinLeft (seen : Link) (cur : Option Link)
  /-- `put_pred(right, left)`. -/
  | joinRight (seen : Link) (cur : Option Link)
  /-- Store the detached pair and answer `true`. -/
  | finish
deriving DecidableEq, Repr

/-- One atomic access of `unlink_checked` on `x` with test `acc`: the arena after it, and the
next place of the call or its answer. Taking `right` is the commit: from there on the call
goes through to `true`.
mirrors src/src/ds/intrusive_list.rs:168-242 -/
def Detach.step (acc : Accept) (x : UInt32) (spurious : Bool) (a : Arena) :
    Detach → Arena × (Detach ⊕ Bool) × Event
  | .read =>
    let seen := a.link x
    if seen.touchesEnd = true then (a, .inr false, .quiet)
    else if seen.hasLockedSide = true then (a, .inl .read, .quiet)
    else (a, .inl (.lock seen), .quiet)
  | .lock seen =>
    if a.link x = seen ∧ spurious = false then (a.store x Link.held, .inl (.check seen), .quiet)
    else (a, .inl .read, .quiet)
  | .check seen =>
    if acc.test a x seen = true then (a, .inl (.readLeft seen), .quiet)
    else (a, .inl (.refuse seen), .quiet)
  | .refuse seen => (a.store x seen, .inr false, .quiet)
  | .readLeft seen =>
    let l := a.link seen.pred
    if l.succ = x ∧ l.hasLockedSide = false then (a, .inl (.holdLeft seen l), .quiet)
    else (a, .inl (.retry seen), .quiet)
  | .holdLeft seen l =>
    if a.link seen.pred = l then
      (a.store seen.pred (l.withSucc locked), .inl (.readRight seen), .quiet)
    else (a, .inl (.retry seen), .quiet)
  | .retry seen => (a.store x seen, .inl .read, .quiet)
  | .readRight seen =>
    let r := a.link seen.succ
    if r.pred = x ∧ r.hasLockedSide = false then (a, .inl (.holdRight seen r), .quiet)
    else (a, .inl (.undoLeft seen none), .quiet)
  | .holdRight seen r =>
    if a.link seen.succ = r then
      (a.store seen.succ (r.withPred locked), .inl (.joinLeft seen none), .unlinked x)
    else (a, .inl (.undoLeft seen none), .quiet)
  | .undoLeft seen cur =>
    match a.update spurious seen.pred .succ x cur with
    | (a', none) => (a', .inl (.retry seen), .quiet)
    | (a', some c) => (a', .inl (.undoLeft seen (some c)), .quiet)
  | .joinLeft seen cur =>
    match a.update spurious seen.pred .succ seen.succ cur with
    | (a', none) => (a', .inl (.joinRight seen none), .quiet)
    | (a', some c) => (a', .inl (.joinLeft seen (some c)), .quiet)
  | .joinRight seen cur =>
    match a.update spurious seen.succ .pred seen.pred cur with
    | (a', none) => (a', .inl .finish, .quiet)
    | (a', some c) => (a', .inl (.joinRight seen (some c)), .quiet)
  | .finish => (a.store x Link.detached, .inr true, .detached x)

/-- Where an `unlink_tail` is: loading the tail sentinel's pair, or detaching the victim it
named, with the test that the victim is still last.
mirrors src/src/ds/intrusive_list.rs:83-97 -/
inductive Tail where
  | read
  | detach (victim : UInt32) (pc : Detach)
deriving DecidableEq, Repr

/-- One atomic access of `unlink_tail(e)`: the arena after it, and the next place of the call
or its answer. A victim that is no longer last is left alone and the tail is read again.
mirrors src/src/ds/intrusive_list.rs:83-97 -/
def Tail.step (e : Ends) (spurious : Bool) (a : Arena) :
    Tail → Arena × (Tail ⊕ Option UInt32) × Event
  | .read =>
    let victim := (a.link e.tail).pred
    if victim = e.head then (a, .inr none, .quiet)
    else if victim = locked then (a, .inl .read, .quiet)
    else (a, .inl (.detach victim .read), .quiet)
  | .detach victim pc =>
    match Detach.step (.last e.tail) victim spurious a pc with
    | (a', .inl pc', ev) => (a', .inl (.detach victim pc'), ev)
    | (a', .inr false, ev) => (a', .inl .read, ev)
    | (a', .inr true, ev) => (a', .inr (some victim), ev)

/-- Where a `link_head(e, x)` is. `first` is the slot read after the head sentinel `H`.
mirrors src/src/ds/intrusive_list.rs:101-120 -/
inductive Attach where
  /-- Load the pair of `H`. -/
  | read
  /-- `hold_succ(H, first)`: load the pair of `H`. -/
  | readHead (first : UInt32)
  /-- `hold_succ(H, first)`: compare-exchange the pair `h` read for it with `succ` held. -/
  | holdHead (first : UInt32) (h : Link)
  /-- `hold_pred(first, H)`: load the pair of `first`. -/
  | readFirst (first : UInt32)
  /-- `hold_pred(first, H)`: compare-exchange the pair `f` read for it with `pred` held. -/
  | holdFirst (first : UInt32) (f : Link)
  /-- `put_succ(H, first)` after losing `first`, then start again. -/
  | undoHead (first : UInt32) (cur : Option Link)
  /-- Store `(H, first)` as the pair of `x`: the commit. -/
  | write (first : UInt32)
  /-- `put_succ(H, x)`. -/
  | joinHead (first : UInt32) (cur : Option Link)
  /-- `put_pred(first, x)`. -/
  | joinFirst (first : UInt32) (cur : Option Link)
deriving DecidableEq, Repr

/-- One atomic access of `link_head(e, x)`: the arena after it, and the next place of the
call, `none` once it returned.
mirrors src/src/ds/intrusive_list.rs:101-120 and src/src/ds/intrusive_list.rs:229-242 -/
def Attach.step (e : Ends) (x : UInt32) (spurious : Bool) (a : Arena) :
    Attach → Arena × Option Attach × Event
  | .read =>
    let first := (a.link e.head).succ
    if first = locked then (a, some .read, .quiet) else (a, some (.readHead first), .quiet)
  | .readHead first =>
    let h := a.link e.head
    if h.succ = first ∧ h.hasLockedSide = false then (a, some (.holdHead first h), .quiet)
    else (a, some .read, .quiet)
  | .holdHead first h =>
    if a.link e.head = h then
      (a.store e.head (h.withSucc locked), some (.readFirst first), .quiet)
    else (a, some .read, .quiet)
  | .readFirst first =>
    let f := a.link first
    if f.pred = e.head ∧ f.hasLockedSide = false then (a, some (.holdFirst first f), .quiet)
    else (a, some (.undoHead first none), .quiet)
  | .holdFirst first f =>
    if a.link first = f then
      (a.store first (f.withPred locked), some (.write first), .quiet)
    else (a, some (.undoHead first none), .quiet)
  | .undoHead first cur =>
    match a.update spurious e.head .succ first cur with
    | (a', none) => (a', some .read, .quiet)
    | (a', some c) => (a', some (.undoHead first (some c)), .quiet)
  | .write first => (a.store x ⟨e.head, first⟩, some (.joinHead first none), .linked x)
  | .joinHead first cur =>
    match a.update spurious e.head .succ x cur with
    | (a', none) => (a', some (.joinFirst first none), .quiet)
    | (a', some c) => (a', some (.joinHead first (some c)), .quiet)
  | .joinFirst first cur =>
    match a.update spurious first .pred x cur with
    | (a', none) => (a', none, .quiet)
    | (a', some c) => (a', some (.joinFirst first (some c)), .quiet)

/-- A call in flight. -/
inductive Call where
  /-- `unlink(x, g)`: detach `x` from whichever list holds it, if its generation is `g`. -/
  | unlink (x : UInt32) (g : Option UInt32) (pc : Detach)
  /-- `unlink_tail(e)`: detach the last slot of the list `e`. -/
  | unlinkTail (e : Ends) (pc : Tail)
  /-- `link_head(e, x)`: put the owned, detached slot `x` first in the list `e`. -/
  | linkHead (e : Ends) (x : UInt32) (pc : Attach)
deriving DecidableEq, Repr

/-- One atomic access of a call: the arena after it, and the call at its next place, or the
slot it hands back detached, if any, once it returned. -/
def Call.step (spurious : Bool) (a : Arena) : Call → Arena × (Call ⊕ Option UInt32) × Event
  | .unlink x g pc =>
    match Detach.step (.ofGeneration g) x spurious a pc with
    | (a', .inl pc', ev) => (a', .inl (.unlink x g pc'), ev)
    | (a', .inr b, ev) => (a', .inr (if b then some x else none), ev)
  | .unlinkTail e pc =>
    match Tail.step e spurious a pc with
    | (a', .inl pc', ev) => (a', .inl (.unlinkTail e pc'), ev)
    | (a', .inr r, ev) => (a', .inr r, ev)
  | .linkHead e x pc =>
    match Attach.step e x spurious a pc with
    | (a', some pc', ev) => (a', .inl (.linkHead e x pc'), ev)
    | (a', none, ev) => (a', .inr none, ev)

/-- A thread: the slots it owns outside every list, and its call in flight. -/
structure Thread where
  owned : List UInt32
  call : Option Call
deriving DecidableEq, Repr

/-- The thread after a step of its call: still in it, or back, owning the slot it was
handed. -/
def Thread.resume (th : Thread) : Call ⊕ Option UInt32 → Thread
  | .inl c => { th with call := some c }
  | .inr none => { th with call := none }
  | .inr (some x) => { owned := x :: th.owned, call := none }

/-- The shared arena and every thread. -/
structure System where
  arena : Arena
  threads : Nat → Thread

namespace System

/-- Replaces one thread. -/
def setThread (σ : System) (t : Nat) (th : Thread) : System :=
  { σ with threads := fun u => if u = t then th else σ.threads u }

/-- One access of thread `t`'s call `c`: the system after it and its event. -/
def advance (σ : System) (t : Nat) (c : Call) (spurious : Bool) : System × Event :=
  match c.step spurious σ.arena with
  | (a', r, ev) => ({ arena := a', threads := (σ.setThread t ((σ.threads t).resume r)).threads }, ev)

end System

/-- One step of thread `t` among the lists `lists`: it starts a call, takes one atomic access
of its call, or, between calls, rewrites or renews a slot it owns. `link_head` starts only on
a detached slot the thread owns; the owner rewrites a slot only with a pair that marks an
end and holds no side (a free-list or detached pair). -/
inductive Step (lists : List Ends) : System → Nat → Event → System → Prop
  | unlink (σ : System) (t : Nat) (x : UInt32) (g : Option UInt32) :
      (σ.threads t).call = none →
      Step lists σ t .quiet (σ.setThread t { σ.threads t with call := some (.unlink x g .read) })
  | unlinkTail (σ : System) (t : Nat) (e : Ends) :
      e ∈ lists → (σ.threads t).call = none →
      Step lists σ t .quiet (σ.setThread t { σ.threads t with call := some (.unlinkTail e .read) })
  | linkHead (σ : System) (t : Nat) (e : Ends) (x : UInt32) :
      e ∈ lists → (σ.threads t).call = none → x ∈ (σ.threads t).owned →
      σ.arena.link x = Link.detached →
      Step lists σ t .quiet
        (σ.setThread t ⟨(σ.threads t).owned.erase x, some (.linkHead e x .read)⟩)
  | access (σ : System) (t : Nat) (c : Call) (spurious : Bool) :
      (σ.threads t).call = some c →
      Step lists σ t (σ.advance t c spurious).2 (σ.advance t c spurious).1
  | rewrite (σ : System) (t : Nat) (x : UInt32) (w : Link) :
      (σ.threads t).call = none → x ∈ (σ.threads t).owned →
      w.touchesEnd = true → w.hasLockedSide = false →
      Step lists σ t .quiet { σ with arena := σ.arena.store x w }
  | renew (σ : System) (t : Nat) (x : UInt32) :
      (σ.threads t).call = none → x ∈ (σ.threads t).owned →
      Step lists σ t .quiet { σ with arena := σ.arena.renew x }

/-- The runs of `Step`: the steps taken, each with its thread and event. -/
inductive Run (lists : List Ends) : System → List (Nat × Event) → System → Prop
  | nil (σ : System) : Run lists σ [] σ
  | cons {σ σ' σ'' : System} {t : Nat} {e : Event} {es : List (Nat × Event)} :
      Step lists σ t e σ' → Run lists σ' es σ'' → Run lists σ ((t, e) :: es) σ''

/-- In `link`, `v` follows `u`: the successor of `u` is `v` and the predecessor of `v` is `u`. -/
def Adjacent (link : UInt32 → Link) (u v : UInt32) : Prop :=
  (link u).succ = v ∧ (link v).pred = u

/-- The list `e` with slots `xs`, from its head sentinel to its tail sentinel. -/
def Ends.chain (e : Ends) (xs : List UInt32) : List UInt32 := e.head :: (xs ++ [e.tail])

/-- The sentinels and slots of all lists, `seqs e` being the slots of list `e` first to last. -/
def nodes (lists : List Ends) (seqs : Ends → List UInt32) : List UInt32 :=
  lists.flatMap fun e => e.chain (seqs e)

/-- The pairs of `link` form the lists `lists`, with slots `seqs`: each list is a doubly
linked chain from its head sentinel to its tail sentinel, the sentinels' outer sides mark the
end, no slot is in two places, and every slot outside the lists has a pair that marks an end
and holds no side. -/
structure Formed (lists : List Ends) (link : UInt32 → Link) (seqs : Ends → List UInt32) :
    Prop where
  linked : ∀ e ∈ lists, (link e.head).pred = listEnd ∧ (link e.tail).succ = listEnd ∧
    (e.chain (seqs e)).IsChain (Adjacent link)
  nodup : (nodes lists seqs).Nodup
  named : ∀ y ∈ nodes lists seqs, y ≠ listEnd ∧ y ≠ locked
  outside : ∀ y, y ∉ nodes lists seqs → (link y).touchesEnd = true ∧ (link y).hasLockedSide = false

/-- No call in flight. -/
def Quiet (σ : System) : Prop := ∀ t, (σ.threads t).call = none

/-- A system a run may start from: no call in flight, the pairs forming the lists, and every
owned slot outside the lists, a slot id, and owned by one thread once. -/
structure Initial (lists : List Ends) (σ : System) : Prop where
  quiet : Quiet σ
  formed : ∃ seqs, Formed lists σ.arena.link seqs ∧
    (∀ t, ∀ x ∈ (σ.threads t).owned, x ∉ nodes lists seqs ∧ x ≠ listEnd ∧ x ≠ locked) ∧
    (∀ t u x, x ∈ (σ.threads t).owned → x ∈ (σ.threads u).owned → t = u) ∧
    (∀ t, (σ.threads t).owned.Nodup)

/-- The systems reachable from a start. -/
inductive Reach (lists : List Ends) : System → Prop
  | start {σ : System} : Initial lists σ → Reach lists σ
  | step {σ σ' : System} {t : Nat} {e : Event} : Reach lists σ → Step lists σ t e σ' → Reach lists σ'

end Relink

namespace Config

/-- Every id a table hands out, as a 32-bit word: the data slots of each shard's
partition, then the head and tail sentinels of each shard. -/
def arenaIds (c : Config) : List UInt32 :=
  (List.range c.shards).flatMap (fun s => (c.partition s).map Nat.toUInt32) ++
    (List.range c.shards).flatMap fun s => [(c.ends s).head, (c.ends s).tail]

end Config

end ShardCache
