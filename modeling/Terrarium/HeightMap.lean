import Terrarium.Memory
import Terrarium.Number.Single
import Terrarium.Plane.Grid
import Terrarium.Plane.Point

namespace Terrarium

/-- The ground and what changed of it. -/
structure HeightMap where
  heights : Grid Float32
  dirty : Rect

namespace HeightMap

def defaultHeight : Float32 := 20

/-- The lowest height that can be set. -/
def lowest : Float32 := 0

/-- The greatest height that can be set. -/
def highest : Float32 := 500

/-- Whether ground can be held in memory. A height takes four bytes. -/
def fits (size : UInt32) : Bool := Memory.holds (size.toNat * size.toNat) 4

/-- Level ground. -/
def level (size : UInt32) (height : Float32) : HeightMap := ⟨Grid.uniform size height, Rect.empty⟩

def new (size : UInt32) : HeightMap := level size defaultHeight

/-- The number of cells on each axis. -/
def size (m : HeightMap) : UInt32 := m.heights.size

/-- The height of a cell, if it is on the grid. -/
def heightAt (m : HeightMap) (x y : Nat) : Option Float32 := m.heights.get? x y

/-- Announces that cells in a rectangle changed. -/
def announce (m : HeightMap) (r : Rect) : HeightMap :=
  { m with dirty := m.dirty.union (r.clipped m.size) }

def announceAll (m : HeightMap) : HeightMap := { m with dirty := Rect.full m.size }

/-- Takes the rectangle that covers all announced changes. -/
def takeDirty (m : HeightMap) : Rect × HeightMap := (m.dirty, { m with dirty := Rect.empty })

/-- Holds a height in the range of heights that can be set. -/
def confine (h : Float32) : Float32 := Single.clamp h lowest highest

/-- Sets the height of a cell and announces it; off the grid nothing happens. -/
def setHeight (m : HeightMap) (x y : UInt32) (h : Float32) : HeightMap :=
  if x < m.size ∧ y < m.size then
    { m with heights := m.heights.modify x.toNat y.toNat fun _ => confine h }.announce (Rect.cell x y)
  else m

/-- Overwrites the height at a place in row order, neither confined nor announced. -/
def overwrite (m : HeightMap) (i : Nat) (h : Float32) : HeightMap :=
  { m with heights := m.heights.modifyAt i fun _ => h }

/-- Overwrites all heights, row by row, with a list of values over and over, not confined. -/
def fill (m : HeightMap) (values : List Float32) : HeightMap :=
  let values := values.toArray
  { m with heights := m.heights.mapCells fun x y h =>
      values[(y * m.size.toNat + x) % values.size]?.getD h }.announceAll

/-- Whether a coordinate lies between the first and the last cell. -/
def spans (m : HeightMap) (x : Float32) : Bool :=
  0 ≤ x && x ≤ (m.size - 1).toFloat32

/-- The height at a point between cells, interpolated along both axes; none off the grid. -/
def lookup (m : HeightMap) (p : Point) : Option Float32 :=
  if m.size = 0 then none
  else if m.spans p.x && m.spans p.y then
    let last := m.size.toNat - 1
    let x0 := p.x.toUInt32
    let y0 := p.y.toUInt32
    let x1 := min (x0.toNat + 1) last
    let y1 := min (y0.toNat + 1) last
    let fx := p.x - x0.toFloat32
    let fy := p.y - y0.toFloat32
    match m.heightAt x0.toNat y0.toNat, m.heightAt x1 y0.toNat, m.heightAt x0.toNat y1,
      m.heightAt x1 y1 with
    | some a, some b, some c, some d =>
        some (Single.interpolate (Single.interpolate a b fx) (Single.interpolate c d fx) fy)
    | _, _, _, _ => none
  else none

end HeightMap

end Terrarium
