import ShardCache.Concurrent.Relink
/-!
# Held sides

A call of the relinking protocol holds a side from the compare-exchange that
wrote `locked` into it until the store that puts a word back. Each place of
a call determines which sides it holds, and for each the word the side
stands for: the word the call will write there, or, before the commit, the
word the side had when it was taken.

* `Detach.holds`, `Attach.holds`, `Call.holds`, `Thread.holds`: the sides a
  call holds at each of its places.
* `Shows link holds W`: the physical pairs `link`, with the holds of every
  thread, stand for the pairs `W`. A held side reads `locked` and stands for
  its hold's word; no side is held twice; every other side reads what it
  stands for.

The pairs a system stands for are the lists as the calls in flight see
them: a held side counts with the word it will get back.
-/
namespace ShardCache.Relink

/-- A side held by a call, with the word it stands for. -/
structure Hold where
  slot : UInt32
  side : Side
  value : UInt32
deriving DecidableEq, Repr

/-- The side a hold names. -/
def Hold.cell (h : Hold) : UInt32 × Side := (h.slot, h.side)

/-- Both sides of slot `x`, standing for the pair `w`. -/
def Hold.pair (x : UInt32) (w : Link) : List Hold := [⟨x, .pred, w.pred⟩, ⟨x, .succ, w.succ⟩]

/-- The sides `unlink_checked` on `x` holds: none until it takes `x`; then both sides of `x`,
standing for the pair `seen` it took them from; then also the successor side of the left
neighbour, standing for `x`. From the commit on the neighbours' sides stand for each other
and the sides of `x` for a detached pair. -/
def Detach.holds (x : UInt32) : Detach → List Hold
  | .read | .lock _ => []
  | .check seen | .refuse seen | .readLeft seen | .holdLeft seen _ | .retry seen =>
    Hold.pair x seen
  | .readRight seen | .holdRight seen _ | .undoLeft seen _ =>
    ⟨seen.pred, .succ, x⟩ :: Hold.pair x seen
  | .joinLeft seen _ =>
    ⟨seen.pred, .succ, seen.succ⟩ :: ⟨seen.succ, .pred, seen.pred⟩ :: Hold.pair x Link.detached
  | .joinRight seen _ => ⟨seen.succ, .pred, seen.pred⟩ :: Hold.pair x Link.detached
  | .finish => Hold.pair x Link.detached

/-- The sides `unlink_tail` holds: those of the detach of its victim. -/
def Tail.holds : Tail → List Hold
  | .read => []
  | .detach victim pc => pc.holds victim

/-- The sides `link_head(e, x)` holds: the successor side of the head sentinel `H`, standing
for `first`, then also the predecessor side of `first`, standing for `H`. From the commit on
both stand for `x`. -/
def Attach.holds (e : Ends) (x : UInt32) : Attach → List Hold
  | .read | .readHead _ | .holdHead _ _ => []
  | .readFirst first | .holdFirst first _ | .undoHead first _ => [⟨e.head, .succ, first⟩]
  | .write first => [⟨first, .pred, e.head⟩, ⟨e.head, .succ, first⟩]
  | .joinHead first _ => [⟨e.head, .succ, x⟩, ⟨first, .pred, x⟩]
  | .joinFirst first _ => [⟨first, .pred, x⟩]

/-- The sides a call holds. -/
def Call.holds : Call → List Hold
  | .unlink x _ pc => pc.holds x
  | .unlinkTail _ pc => pc.holds
  | .linkHead e x pc => pc.holds e x

/-- The sides a thread holds: those of its call in flight. -/
def Thread.holds (th : Thread) : List Hold :=
  match th.call with
  | none => []
  | some c => c.holds

/-- The holds of every thread of a system. -/
def System.holds (σ : System) (t : Nat) : List Hold := (σ.threads t).holds

/-- The physical pairs `link` with the holds `holds` stand for the pairs `W`. -/
structure Shows (link : UInt32 → Link) (holds : Nat → List Hold) (W : UInt32 → Link) :
    Prop where
  reads : ∀ t, ∀ h ∈ holds t, (link h.slot).side h.side = locked
  value : ∀ t, ∀ h ∈ holds t, (W h.slot).side h.side = h.value
  nodup : ∀ t, ((holds t).map Hold.cell).Nodup
  apart : ∀ t u, t ≠ u → ∀ h ∈ holds t, ∀ h' ∈ holds u, h.cell ≠ h'.cell
  free : ∀ y d, (∀ t, ∀ h ∈ holds t, h.cell ≠ (y, d)) → (link y).side d = (W y).side d

end ShardCache.Relink
