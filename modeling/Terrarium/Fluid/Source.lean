import Terrarium.Ident.Table
import Terrarium.Number.Single
import Terrarium.Plane.Point
import Terrarium.Plane.Rect

namespace Terrarium

/-- An object that keeps filling the cells around it up to an absolute level. -/
structure Source where
  id : ObjectId
  pos : Point
  radius : Float32
  level : Float32
  capacity : Float32
deriving DecidableEq

instance : Identified Source := ⟨Source.id⟩

/-- A copy of a source's parameters, with the part of the grid it can touch. -/
structure Reach where
  pos : Point
  radius : Float32
  level : Float32
  capacity : Float32
  rect : Rect
deriving DecidableEq

namespace Reach

/-- The first column or row at or after `at - radius`, none below zero. -/
def lowerBound (centre radius : Float32) : UInt32 := (centre - radius).toUInt32

/-- The column or row after the last one at or before `at + radius`. -/
def upperBound (centre radius : Float32) : UInt32 :=
  (Single.larger (Single.ceil (centre + radius)) (-1) + 1).toUInt32

/-- The reach of a source on a grid of a size. -/
def ofSource (s : Source) (size : UInt32) : Reach where
  pos := s.pos
  radius := s.radius
  level := s.level
  capacity := s.capacity
  rect := (Rect.mk (lowerBound s.pos.x s.radius) (lowerBound s.pos.y s.radius)
    (upperBound s.pos.x s.radius) (upperBound s.pos.y s.radius)).clipped size

/-- Whether a cell lies within the radius. A distance that is no number counts as within. -/
def covers (r : Reach) (x y : Nat) : Bool := !(r.radius < (Point.ofCell x y).distance r.pos)

end Reach

end Terrarium
