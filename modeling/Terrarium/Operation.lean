import Terrarium.Ident.Table
import Terrarium.Number.Decimal
import Terrarium.Plane.Point
import Terrarium.Plane.Rect

namespace Terrarium

/-- A square of densities around a centre, row by row, with a common strength. -/
structure Brush where
  xc : Float32
  yc : Float32
  size : UInt32
  density : Array Float32
  strength : Float32
deriving BEq, DecidableEq

/-- A brush of density one everywhere. -/
def Brush.uniform (xc yc : Float32) (size : UInt32) (strength : Float32) : Brush :=
  ⟨xc, yc, size, Array.replicate (size.toNat * size.toNat) 1, strength⟩

/-- What can be asked of a world. -/
inductive Operation where
  | terraformRaise (brush : Brush)
  | terraformLevel (brush : Brush) (reference : Float32)
  | terraformSmooth (brush : Brush)
  | terraformRamp (brush : Brush) (source : Point) (sourceHeight : Float32)
      (destination : Point) (destinationHeight : Float32)
  | fluidRaise (brush : Brush)
  | sourceCreate (id : ObjectId) (pos : Point) (radius level capacity : Float32)
  | sourceMove (id : ObjectId) (pos : Point)
  | sourceSetLevel (id : ObjectId) (level : Float32)
  | sourceSetCapacity (id : ObjectId) (capacity : Float32)
  | sourceDestroy (id : ObjectId)
  | oceanSetLevel (level : Float32)
  | fluidReset
deriving BEq, DecidableEq

def Operation.name : Operation → String
  | .terraformRaise _ => "terraform_raise"
  | .terraformLevel .. => "terraform_level"
  | .terraformSmooth _ => "terraform_smooth"
  | .terraformRamp .. => "terraform_ramp"
  | .fluidRaise _ => "fluid_raise"
  | .sourceCreate .. => "fluid_source_create"
  | .sourceMove .. => "fluid_source_move"
  | .sourceSetLevel .. => "fluid_source_set_height"
  | .sourceSetCapacity .. => "fluid_source_set_capacity"
  | .sourceDestroy _ => "fluid_source_destroy"
  | .oceanSetLevel _ => "fluid_ocean_level_set_height"
  | .fluidReset => "fluid_reset"

/-- Why the arguments of an operation are refused. -/
inductive Objection where
  | emptyBrush
  | centreNotFinite
  | densityCount (found expected : Nat)
  | shortRamp
  | positionNotFinite
  | badRadius (radius : Float32)
  | store (error : StoreError)
deriving DecidableEq

def Objection.message : Objection → String
  | .emptyBrush => "brush size is zero"
  | .centreNotFinite => "brush centre is not finite"
  | .densityCount found expected =>
      "density map has " ++ toString found ++ " entries, expected " ++ toString expected
  | .shortRamp => "ramp end points are less than one cell apart"
  | .positionNotFinite => "source position is not finite"
  | .badRadius radius =>
      "source radius " ++ Decimal.plainText radius ++ " must be finite and non-negative"
  | .store error => error.message

/-- Why an operation did not apply. -/
inductive Failure where
  | noSuchObject (id : ObjectId)
  | invalidArgument (text : String)
  | outOfBounds
deriving DecidableEq, Repr

def Failure.message : Failure → String
  | .noSuchObject id => "no matching object with id " ++ id.text
  | .invalidArgument text => "invalid argument: " ++ text
  | .outOfBounds => "operation lies entirely outside the world"

def Objection.failure (o : Objection) : Failure := .invalidArgument o.message

/-- What a success changed. -/
inductive Delta where
  | nothing
  | terrain (rect : Rect)
  | fluid (rect : Rect)
  | created (id : ObjectId)
  | updated (id : ObjectId)
  | destroyed (id : ObjectId)
deriving DecidableEq, Repr

/-- How an operation ended. -/
inductive Outcome where
  | success (delta : Delta)
  | failure (cause : Failure)
deriving DecidableEq, Repr

def Outcome.isSuccess : Outcome → Bool
  | .success _ => true
  | .failure _ => false

end Terrarium
