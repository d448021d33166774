/-!
# Half-open ranges of byte offsets
-/

namespace ClassRefactor

/-- The offsets from `start` up to, but not including, `stop`. -/
structure Range where
  start : Nat
  stop : Nat
deriving DecidableEq, Repr, Inhabited

namespace Range

/-- Builds a range from two offsets in order; there is none for offsets out of order. -/
def ordered? (start stop : Nat) : Option Range :=
  if start ≤ stop then some ⟨start, stop⟩ else none

/-- The empty range at an offset. -/
def emptyAt (offset : Nat) : Range := ⟨offset, offset⟩

def length (r : Range) : Nat := r.stop - r.start

def isEmpty (r : Range) : Bool := r.start == r.stop

def contains (r : Range) (offset : Nat) : Bool := r.start ≤ offset && offset < r.stop

/-- Like `contains`, but also true of a cursor right after the range. -/
def touches (r : Range) (offset : Nat) : Bool := r.start ≤ offset && offset ≤ r.stop

/-- Whether `inner` lies within `r`. -/
def encloses (r inner : Range) : Bool := r.start ≤ inner.start && inner.stop ≤ r.stop

/-- Ranges are ordered by start, then by stop. -/
def order (a b : Range) : Ordering := (compare a.start b.start).then (compare a.stop b.stop)

end Range

end ClassRefactor
