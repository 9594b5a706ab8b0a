import Terrarium.Plane.Rect

namespace Terrarium

/-- A square grid of `size` cells on each axis. -/
structure Grid (α : Type) where
  size : UInt32
  cells : Array α
  size_cells : cells.size = size.toNat * size.toNat

namespace Grid

variable {α β : Type}

theorem index_lt {x y n : Nat} (hx : x < n) (hy : y < n) : y * n + x < n * n :=
  calc y * n + x < y * n + n := Nat.add_lt_add_left hx _
    _ = (y + 1) * n := (Nat.succ_mul y n).symm
    _ ≤ n * n := Nat.mul_le_mul_right n hy

/-- The same value in every cell. -/
def uniform (size : UInt32) (a : α) : Grid α where
  size := size
  cells := Array.replicate (size.toNat * size.toNat) a
  size_cells := Array.size_replicate

/-- The place of a cell in row order, if it is on the grid. -/
def index? (g : Grid α) (x y : Nat) : Option (Fin g.cells.size) :=
  if h : x < g.size.toNat ∧ y < g.size.toNat then
    some ⟨y * g.size.toNat + x, g.size_cells ▸ index_lt h.1 h.2⟩
  else none

/-- The value of a cell, if it is on the grid. -/
def get? (g : Grid α) (x y : Nat) : Option α := (g.index? x y).map fun i => g.cells[i]

/-- Changes the cell at a place in row order; beyond the last place there is nothing to change. -/
def modifyAt (g : Grid α) (i : Nat) (f : α → α) : Grid α where
  size := g.size
  cells := g.cells.modify i f
  size_cells := Array.size_modify.trans g.size_cells

/-- Changes one cell; off the grid there is nothing to change. -/
def modify (g : Grid α) (x y : Nat) (f : α → α) : Grid α :=
  if x < g.size.toNat ∧ y < g.size.toNat then g.modifyAt (y * g.size.toNat + x) f else g

def map (g : Grid α) (f : α → β) : Grid β where
  size := g.size
  cells := g.cells.map f
  size_cells := Array.size_map.trans g.size_cells

/-- Changes every cell, knowing its coordinates. -/
def mapCells (g : Grid α) (f : Nat → Nat → α → β) : Grid β where
  size := g.size
  cells := g.cells.mapIdx fun i a => f (i % g.size.toNat) (i / g.size.toNat) a
  size_cells := Array.size_mapIdx.trans g.size_cells

def toList (g : Grid α) : List α := g.cells.toList

end Grid

end Terrarium
