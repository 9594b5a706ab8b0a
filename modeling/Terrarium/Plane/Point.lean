/-!
Points of the plane with single-precision coordinates. Every operation rounds once per basic
arithmetic step, in the order written here.
-/
namespace Terrarium

/-- A point, or the vector to it from the origin. -/
structure Point where
  x : Float32
  y : Float32
deriving BEq, DecidableEq

namespace Point

instance : Add Point where
  add p q := ⟨p.x + q.x, p.y + q.y⟩

instance : Sub Point where
  sub p q := ⟨p.x - q.x, p.y - q.y⟩

/-- A vector made longer by a factor. -/
def scale (p : Point) (s : Float32) : Point := ⟨p.x * s, p.y * s⟩

/-- A vector made shorter by a divisor. -/
def shrink (p : Point) (s : Float32) : Point := ⟨p.x / s, p.y / s⟩

def dot (p q : Point) : Float32 := p.x * q.x + p.y * q.y

def length (p : Point) : Float32 := (p.dot p).sqrt

def distance (p q : Point) : Float32 := (p - q).length

/-- Whether both coordinates are finite numbers. -/
def isFinite (p : Point) : Bool := p.x.isFinite && p.y.isFinite

/-- The point at a grid cell. -/
def ofCell (x y : Nat) : Point := ⟨(UInt64.ofNat x).toFloat32, (UInt64.ofNat y).toFloat32⟩

end Point

end Terrarium
