import Terrarium.HeightMap
import Terrarium.Operation

/-!
Painting with a brush. The brush's cells lie on the cells of the grid from a rounded corner on;
what falls off the grid is skipped, and a brush that misses the grid altogether is refused. Cells
are painted row by row.
-/
namespace Terrarium

namespace Brush

/-- Refuses a brush without cells, without a place, or with the wrong number of densities. -/
def validate (b : Brush) : Except Failure Unit :=
  if b.size = 0 then .error Objection.emptyBrush.failure
  else if !(b.xc.isFinite && b.yc.isFinite) then .error Objection.centreNotFinite.failure
  else if b.density.size ≠ b.size.toNat * b.size.toNat then
    .error (Objection.densityCount b.density.size (b.size.toNat * b.size.toNat)).failure
  else .ok ()

/-- The first column or row of a brush of a size around a centre. -/
def corner (centre : Float32) (size : UInt32) : Int := Single.round (centre - size.toFloat32 / 2)

def left (b : Brush) : Int := corner b.xc b.size

def top (b : Brush) : Int := corner b.yc b.size

/-- Moves a coordinate onto a grid. -/
def clip (grid : UInt32) (v : Int) : UInt32 := if v < 0 then 0 else
  if v < grid.toNat then UInt32.ofNat v.toNat else grid

/-- The part of the brush's cells that lies on a grid. -/
def onGrid (b : Brush) (grid : UInt32) : Rect :=
  ⟨clip grid b.left, clip grid b.top, clip grid (b.left + b.size.toNat),
    clip grid (b.top + b.size.toNat)⟩

/-- The rectangle that a brush paints on a grid. -/
def footprint (b : Brush) (grid : UInt32) : Except Failure Rect :=
  match b.validate with
  | .error e => .error e
  | .ok _ => if (b.onGrid grid).isEmpty then .error .outOfBounds else .ok (b.onGrid grid)

/-- The place of a grid cell among the brush's densities. -/
def index (b : Brush) (x y : Nat) : Nat :=
  (y - b.top).toNat * b.size.toNat + (x - b.left).toNat

/-- The weight of a cell: its density times the strength. -/
def weight? (b : Brush) (x y : Nat) : Option Float32 :=
  b.density[b.index x y]?.map fun d => b.strength * d

/-- Paints the cells of a rectangle. -/
def paint {α : Type} (b : Brush) (r : Rect) (rule : Grid α → Nat → Nat → Float32 → Grid α)
    (g : Grid α) : Grid α :=
  r.cells.foldl
    (fun g p =>
      match b.weight? p.1 p.2 with
      | some d => rule g p.1 p.2 d
      | none => g)
    g

end Brush

/-- The window of de la Vallée Poussin: one at zero, nothing from a distance of one on. -/
def parzen (u : Float32) : Float32 :=
  let u := u.abs
  if u ≤ 0.5 then 1 - 6 * u * u + 6 * u * u * u
  else if u ≤ 1 then 2 * Single.cube (1 - u)
  else 0

namespace HeightMap

/-- How far smoothing looks around a cell. -/
def smoothWindow : Nat := 3

/-- The cells around a cell that smoothing looks at. -/
def around (size : UInt32) (x y : Nat) : List (Nat × Nat) :=
  (List.range' (y - smoothWindow) (min (y + smoothWindow) size.toNat - (y - smoothWindow))).flatMap
    fun v =>
      (List.range' (x - smoothWindow) (min (x + smoothWindow) size.toNat - (x - smoothWindow))).map
        fun u => (u, v)

/-- The weight of one cell in the average around another. -/
def smoothWeight (x y : Nat) (p : Nat × Nat) : Float32 :=
  parzen ((Point.ofCell p.1 p.2).distance (Point.ofCell x y) / (UInt64.ofNat smoothWindow).toFloat32)

/-- The weighted average of the heights around a cell, unless all weights vanish. -/
def average (g : Grid Float32) (x y : Nat) : Option Float32 :=
  let sums := (around g.size x y).foldl
    (fun (s : Float32 × Float32) p =>
      let weight := smoothWeight x y p
      match g.get? p.1 p.2 with
      | some h => (s.1 + weight, s.2 + h * weight)
      | none => s)
    (0, 0)
  if 0 < sums.1 then some (sums.2 / sums.1) else none

/-- The rule that gives a cell a new height made of its old one. -/
def ownRule (rule : Float32 → Float32 → Nat → Nat → Float32) (g : Grid Float32) (x y : Nat)
    (d : Float32) : Grid Float32 :=
  g.modify x y fun h => confine (rule h d x y)

/-- The rule that moves a cell toward the average around it. -/
def smoothRule (g : Grid Float32) (x y : Nat) (d : Float32) : Grid Float32 :=
  match average g x y with
  | none => g
  | some a => g.modify x y fun h => confine (Single.interpolate h a d)

/-- Paints the ground by a rule and announces what was painted. -/
def painted (m : HeightMap) (b : Brush) (rule : Grid Float32 → Nat → Nat → Float32 → Grid Float32) :
    Except Failure (Rect × HeightMap) :=
  match b.footprint m.size with
  | .error e => .error e
  | .ok r => .ok (r, { m with heights := b.paint r rule m.heights }.announce r)

end HeightMap

end Terrarium
