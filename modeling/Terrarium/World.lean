import Terrarium.Fluid.Basin
import Terrarium.Painting

/-!
The world: ground, fluid and objects, and how operations change it. An operation that fails leaves
the world as it was, but for fluid steps that were under way and are waited for.
-/
namespace Terrarium

/-- What can live in the world: sources of fluid, and objects that only hold their place. -/
inductive Entity where
  | source (s : Source)
  | marker (id : ObjectId)
deriving DecidableEq

namespace Entity

instance : Identified Entity where
  ident
    | source s => s.id
    | marker id => id

/-- The source that an object is, if it is one. -/
def source? : Entity → Option Source
  | source s => some s
  | marker _ => none

/-- Changes a source; other objects stay as they are. -/
def mapSource (f : Source → Source) : Entity → Entity
  | source s => source (f s)
  | marker id => marker id

end Entity

/-- Ground, fluid and objects. -/
structure World where
  ground : HeightMap
  basin : Basin
  objects : Table Entity

namespace World

/-- Dry ground without objects. -/
def onGround (ground : HeightMap) : World := ⟨ground, Basin.new ground, Table.empty⟩

/-- Level ground without fluid and objects. -/
def new (size : UInt32) : World := onGround (HeightMap.new size)

def source? (w : World) (id : ObjectId) : Option Source := w.objects.getAs? Entity.source? id

/-- Upkeep between the operations of a frame and the next fluid step: changes of the ground go
to the fluid, and changed sources are copied anew. -/
def upkeep (w : World) : World :=
  let (dirty, ground) := w.ground.takeDirty
  let basin := if dirty.isEmpty then w.basin else w.basin.groundUpdated dirty ground
  let basin := if basin.stale then basin.mapSources w.source? else basin
  { w with ground, basin }

/-- Refuses places that are not finite and radii that are negative or not finite. -/
def checkPlacement (pos : Point) (radius : Float32) : Except Failure Unit :=
  if !pos.isFinite then .error Objection.positionNotFinite.failure
  else if !radius.isFinite || radius < 0 then .error (Objection.badRadius radius).failure
  else .ok ()

def paintGround (w : World) (b : Brush)
    (rule : Grid Float32 → Nat → Nat → Float32 → Grid Float32) : Except Failure (Delta × World) :=
  match w.ground.painted b rule with
  | .error e => .error e
  | .ok (r, ground) => .ok (.terrain r, { w with ground })

/-- The height that a ramp has at a cell, from its start and the unit vector and length to its
end. -/
def rampHeight (start : Point) (startHeight endHeight : Float32) (direction : Point)
    (length : Float32) (x y : Nat) : Float32 :=
  let along := (Point.ofCell x y - start).dot direction
  Single.interpolate startHeight endHeight (Single.clamp (along / length) 0 1)

/-- Paints a ramp; its ends have to be at least one cell apart. -/
def paintRamp (w : World) (b : Brush) (start : Point) (startHeight : Float32) (stop : Point)
    (stopHeight : Float32) : Except Failure (Delta × World) :=
  let span := stop - start
  let length := span.length
  if length < 1 then .error Objection.shortRamp.failure
  else
    let direction := span.shrink length
    w.paintGround b (HeightMap.ownRule fun h d x y =>
      Single.interpolate h (rampHeight start startHeight stopHeight direction length x y) d)

/-- Paints fluid onto the back buffer; no depth goes below zero. -/
def paintFluid (w : World) (b : Brush) : Except Failure (Delta × World) :=
  match b.footprint w.basin.size with
  | .error e => .error e
  | .ok r =>
      let basin := w.basin.write (b.paint r fun g x y d =>
        g.modify x y fun c => { c with depth := Single.larger (c.depth + d) 0 })
      .ok (.fluid r, { w with basin })

/-- Makes a source and registers it. -/
def createSource (w : World) (id : ObjectId) (pos : Point) (radius level capacity : Float32) :
    Except Failure (Delta × World) :=
  match checkPlacement pos radius with
  | .error e => .error e
  | .ok _ =>
      match w.objects.createAt id fun id => .source ⟨id, pos, radius, level, capacity⟩ with
      | .error e => .error (Objection.store e).failure
      | .ok (id, objects) =>
          .ok (.created id, { w with objects, basin := w.basin.addSource id })

def updateSource (w : World) (id : ObjectId) (f : Source → Source) :
    Except Failure (Delta × World) :=
  match w.source? id with
  | none => .error (.noSuchObject id)
  | some _ =>
      .ok (.updated id,
        { w with objects := w.objects.update id (Entity.mapSource f), basin := w.basin.invalidate })

def moveSource (w : World) (id : ObjectId) (pos : Point) : Except Failure (Delta × World) :=
  match checkPlacement pos 0 with
  | .error e => .error e
  | .ok _ => w.updateSource id fun s => { s with pos }

def destroySource (w : World) (id : ObjectId) : Except Failure (Delta × World) :=
  match w.source? id with
  | none => .error (.noSuchObject id)
  | some _ =>
      .ok (.destroyed id,
        { w with basin := w.basin.removeSource id, objects := (w.objects.kill id).2 })

/-- Lets the fluid steps under way come to their end. -/
def wait (w : World) : World := { w with basin := w.basin.wait }

/-- What an operation makes of a world, or why it does not apply. -/
def apply (w : World) : Operation → Except Failure (Delta × World)
  | .terraformRaise b => w.paintGround b (HeightMap.ownRule fun h d _ _ => h + d)
  | .terraformLevel b reference =>
      w.paintGround b (HeightMap.ownRule fun h d _ _ => Single.interpolate h reference d)
  | .terraformSmooth b => w.paintGround b HeightMap.smoothRule
  | .terraformRamp b start startHeight stop stopHeight =>
      w.paintRamp b start startHeight stop stopHeight
  | .fluidRaise b => w.paintFluid b
  | .sourceCreate id pos radius level capacity => w.createSource id pos radius level capacity
  | .sourceMove id pos => w.moveSource id pos
  | .sourceSetLevel id level => w.updateSource id fun s => { s with level }
  | .sourceSetCapacity id capacity => w.updateSource id fun s => { s with capacity }
  | .sourceDestroy id => w.destroySource id
  | .oceanSetLevel level => .ok (.nothing, { w with basin := w.basin.setOcean level })
  | .fluidReset => .ok (.nothing, { w with basin := w.basin.reset })

/-- Whether an operation works on the fluid's back buffer. -/
def writesFluid : Operation → Bool
  | .fluidRaise _ => true
  | .fluidReset => true
  | _ => false

/-- Runs an operation. Those that work on the fluid's back buffer first wait for the steps under
way, even if they fail then. -/
def execute (w : World) (op : Operation) : Outcome × World :=
  let w := if writesFluid op then w.wait else w
  match w.apply op with
  | .error e => (.failure e, w)
  | .ok (delta, w) => (.success delta, w)

def executeAll (w : World) : List Operation → List Outcome × World
  | [] => ([], w)
  | op :: rest =>
      let (outcome, w) := w.execute op
      let (outcomes, w) := w.executeAll rest
      (outcome :: outcomes, w)

/-- One frame: the operations, the upkeep and the start of the next fluid step. -/
def frame (w : World) (ops : List Operation) : List Outcome × World :=
  let (outcomes, w) := w.executeAll ops
  let w := w.upkeep
  (outcomes, { w with basin := w.basin.start })

def summary (w : World) : String :=
  "WorldState \x7b terrain_size: " ++ toString w.ground.size.toNat ++ ", objects: " ++
    w.objects.summary ++ ", fluid_sources: " ++ toString w.basin.sources.length ++ " \x7d"

end World

end Terrarium
