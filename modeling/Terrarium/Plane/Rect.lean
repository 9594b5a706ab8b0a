/-!
Half-open rectangles of grid cells. A rectangle whose lower bound is not below its upper one, on
either axis, is empty, whatever its bounds are; the union of two rectangles is the smallest one
that covers both, and an empty one contributes nothing to it.
-/
namespace Terrarium

/-- The cells `x0 ≤ x < x1` and `y0 ≤ y < y1`. -/
structure Rect where
  x0 : UInt32
  y0 : UInt32
  x1 : UInt32
  y1 : UInt32
deriving DecidableEq, Repr

namespace Rect

def empty : Rect := ⟨0, 0, 0, 0⟩

/-- All cells of a square grid. -/
def full (size : UInt32) : Rect := ⟨0, 0, size, size⟩

def cell (x y : UInt32) : Rect := ⟨x, y, x + 1, y + 1⟩

/-- Whether there is no cell in the rectangle. -/
def isEmpty (r : Rect) : Bool := r.x1 ≤ r.x0 || r.y1 ≤ r.y0

def width (r : Rect) : UInt32 := if r.x0 < r.x1 then r.x1 - r.x0 else 0

def height (r : Rect) : UInt32 := if r.y0 < r.y1 then r.y1 - r.y0 else 0

/-- Whether a cell lies in the rectangle. -/
def contains (r : Rect) (x y : UInt32) : Bool :=
  r.x0 ≤ x && x < r.x1 && r.y0 ≤ y && y < r.y1

/-- The smallest rectangle that covers both; an empty one does not count. -/
def union (a b : Rect) : Rect :=
  if a.isEmpty then b
  else if b.isEmpty then a
  else ⟨min a.x0 b.x0, min a.y0 b.y0, max a.x1 b.x1, max a.y1 b.y1⟩

/-- The part on a square grid. Inverted bounds come out as an empty rectangle in order. -/
def clipped (r : Rect) (size : UInt32) : Rect :=
  let x0 := min r.x0 size
  let y0 := min r.y0 size
  ⟨x0, y0, max (min r.x1 size) x0, max (min r.y1 size) y0⟩

/-- The cells of the rectangle, row by row. -/
def cells (r : Rect) : List (Nat × Nat) :=
  (List.range' r.y0.toNat r.height.toNat).flatMap fun y =>
    (List.range' r.x0.toNat r.width.toNat).map fun x => (x, y)

end Rect

end Terrarium
