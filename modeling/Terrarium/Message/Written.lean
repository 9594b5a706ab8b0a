import Terrarium.Cbor.Written
import Terrarium.Message.Basic

namespace Terrarium

open Cbor

/-- An identifier is its bare word. -/
def ObjectId.written (id : ObjectId) : List UInt8 := writeUnsigned id.word.toNat

/-- A point is the array of its coordinates. -/
def Point.written (p : Point) : List UInt8 := writeArray [writeFloat p.x, writeFloat p.y]

/-- A rectangle is the record of its bounds. -/
def Rect.written (r : Rect) : List UInt8 :=
  writeRecord
    [("x0", writeUnsigned r.x0.toNat), ("y0", writeUnsigned r.y0.toNat),
      ("x1", writeUnsigned r.x1.toNat), ("y1", writeUnsigned r.y1.toNat)]

/-- A brush is the record of its parts. -/
def Brush.written (b : Brush) : List UInt8 :=
  writeRecord
    [("xc", writeFloat b.xc), ("yc", writeFloat b.yc), ("size", writeUnsigned b.size.toNat),
      ("density_map", writeArray (b.density.toList.map writeFloat)),
      ("strength", writeFloat b.strength)]

/-- The fields of an operation besides its kind. -/
def Operation.writtenFields : Operation → List (String × List UInt8)
  | .terraformRaise b => [("brush", b.written)]
  | .terraformLevel b reference =>
      [("brush", b.written), ("reference_height", writeFloat reference)]
  | .terraformSmooth b => [("brush", b.written)]
  | .terraformRamp b start startHeight stop stopHeight =>
      [("brush", b.written), ("source_point", start.written),
        ("source_height", writeFloat startHeight), ("destination_point", stop.written),
        ("destination_height", writeFloat stopHeight)]
  | .fluidRaise b => [("brush", b.written)]
  | .sourceCreate id pos radius level capacity =>
      [("object_id", id.written), ("pos", pos.written), ("radius", writeFloat radius),
        ("absolute_height", writeFloat level), ("capacity", writeFloat capacity)]
  | .sourceMove id pos => [("object_id", id.written), ("pos", pos.written)]
  | .sourceSetLevel id level => [("object_id", id.written), ("absolute_height", writeFloat level)]
  | .sourceSetCapacity id capacity => [("object_id", id.written), ("capacity", writeFloat capacity)]
  | .sourceDestroy id => [("object_id", id.written)]
  | .oceanSetLevel level => [("height", writeFloat level)]
  | .fluidReset => []

/-- An operation is a record that begins with its kind. -/
def Operation.written (op : Operation) : List UInt8 :=
  writeRecord (("kind", writeText op.name) :: op.writtenFields)

/-- What a success changed; nothing is a bare name. -/
def Delta.written : Delta → List UInt8
  | .nothing => writeText "None"
  | .terrain r => writeChoice "Terrain" r.written
  | .fluid r => writeChoice "Fluid" r.written
  | .created id => writeChoice "Created" id.written
  | .updated id => writeChoice "Updated" id.written
  | .destroyed id => writeChoice "Destroyed" id.written

def Failure.written : Failure → List UInt8
  | .noSuchObject id => writeChoice "NoSuchObject" id.written
  | .invalidArgument text => writeChoice "InvalidArgument" (writeText text)
  | .outOfBounds => writeText "OutOfBounds"

def Outcome.written : Outcome → List UInt8
  | .success delta => writeChoice "Success" delta.written
  | .failure cause => writeChoice "Failure" cause.written

def LinkSignal.written : LinkSignal → List UInt8
  | .ping seq => writeChoice "Ping" (writeRecord [("seq", writeUnsigned seq.toNat)])
  | .pong seq => writeChoice "Pong" (writeRecord [("seq", writeUnsigned seq.toNat)])

def Command.written (c : Command) : List UInt8 :=
  writeRecord [("token", writeUnsigned c.token.toNat), ("op", c.op.written)]

def Response.written (r : Response) : List UInt8 :=
  writeRecord [("token", writeUnsigned r.token.toNat), ("result", r.outcome.written)]

def Message.payload : Message → List UInt8
  | .link signal => signal.written
  | .command c => c.written
  | .response r => r.written

end Terrarium
