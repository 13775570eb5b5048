/-!
# Link words

A slot in a doubly linked recency list has a pair of 32-bit neighbour words,
its predecessor and its successor. Two values are reserved: `listEnd` marks
a missing neighbour and `locked` a side held by an operation in progress. A
pair with both sides `listEnd` is detached from every list.

`Link.describe` writes a pair as `(pred, succ)`, with the reserved values
spelled `END` and `LOCKED`. A recency list runs between two sentinel ids,
its `Relink.Ends`.
-/
namespace ShardCache

/-- The neighbour word of a missing neighbour.
mirrors src/src/ds/links.rs:35-36 -/
def listEnd : UInt32 := 0xFFFFFFFE

/-- The neighbour word of a side held by an operation.
mirrors src/src/ds/links.rs:38-39 -/
def locked : UInt32 := 0xFFFFFFFF

/-- The predecessor and successor words of a slot.
mirrors src/src/ds/links.rs:44-49 -/
structure Link where
  pred : UInt32
  succ : UInt32
deriving DecidableEq, Repr

namespace Link

/-- The pair of a slot in no list: both sides mark an end.
mirrors src/src/ds/links.rs:52-53 -/
def detached : Link := ⟨listEnd, listEnd⟩

/-- The same pair with another predecessor.
mirrors src/src/ds/links.rs:63-66 -/
def withPred (l : Link) (pred : UInt32) : Link := { l with pred := pred }

/-- The same pair with another successor.
mirrors src/src/ds/links.rs:68-71 -/
def withSucc (l : Link) (succ : UInt32) : Link := { l with succ := succ }

/-- Whether a side is held.
mirrors src/src/ds/links.rs:73-77 -/
def hasLockedSide (l : Link) : Bool := l.pred == locked || l.succ == locked

/-- Whether a side marks a list end.
mirrors src/src/ds/links.rs:79-83 -/
def touchesEnd (l : Link) : Bool := l.pred == listEnd || l.succ == listEnd

/-- Whether both sides mark a list end.
mirrors src/src/ds/links.rs:85-88 -/
def isDetached (l : Link) : Bool := l.pred == listEnd && l.succ == listEnd

/-- The text of one side.
mirrors src/src/ds/links.rs:103-109 -/
def sideText (w : UInt32) : String :=
  if w == listEnd then "END" else if w == locked then "LOCKED" else toString w.toNat

/-- The text of a pair.
mirrors src/src/ds/links.rs:102-115 -/
def describe (l : Link) : String := "(" ++ sideText l.pred ++ ", " ++ sideText l.succ ++ ")"

end Link

namespace Relink

/-- The head and tail sentinels of one list.
mirrors src/src/ds/intrusive_list.rs:51-56 -/
structure Ends where
  head : UInt32
  tail : UInt32
deriving DecidableEq, Repr

end Relink

end ShardCache
