import Terrarium.Fluid.Source
import Terrarium.HeightMap

namespace Terrarium

/-- A cell of the fluid: the height of the ground below it and the depth of the fluid on it. -/
structure Cell where
  ground : Float32
  depth : Float32
deriving DecidableEq

/-- How far the fluid of a cell is below a level. -/
def Cell.deficit (c : Cell) (level : Float32) : Float32 := level - c.ground - c.depth

/-- What a step works with, as it was when the step was started. -/
structure Job where
  reaches : List Reach
  ocean : Float32
deriving DecidableEq

namespace Fluid

def dry (m : HeightMap) : Grid Cell := m.heights.map fun h => ⟨h, 0⟩

/-- The sum of all depths, row by row. It begins with the negative zero, which changes no number
it is added to. -/
def volume (g : Grid Cell) : Float32 := g.cells.foldl (fun sum c => sum + c.depth) (-0.0)

/-- Pours into one cell what it lacks, as far as the budget goes. -/
def pourCell (r : Reach) (state : Grid Cell × Float32) (p : Nat × Nat) : Grid Cell × Float32 :=
  let (g, budget) := state
  if budget ≤ 0 || !r.covers p.1 p.2 then (g, budget)
  else
    match g.get? p.1 p.2 with
    | none => (g, budget)
    | some c =>
        let deficit := c.deficit r.level
        if deficit ≤ 0 then (g, budget)
        else
          let added := Single.smaller deficit budget
          (g.modify p.1 p.2 fun c => { c with depth := c.depth + added }, budget - added)

/-- Pours from one source, row by row, until its capacity is used up. -/
def pour (g : Grid Cell) (r : Reach) : Grid Cell :=
  (r.rect.cells.foldl (pourCell r) (g, r.capacity)).1

/-- Whether a cell lies on the border of a grid. -/
def onBorder (size x y : Nat) : Bool := x = 0 || y = 0 || x + 1 = size || y + 1 = size

/-- The rule of the ocean: a cell is filled up to the level of the ocean. -/
def flood (ocean : Float32) (c : Cell) : Cell :=
  let target := ocean - c.ground
  if c.depth < target then { c with depth := target } else c

/-- A depth that is negative or no number becomes zero. -/
def settleCell (c : Cell) : Cell :=
  if c.depth.isNaN || c.depth < 0 then { c with depth := 0 } else c

def floodBorder (g : Grid Cell) (ocean : Float32) : Grid Cell :=
  g.mapCells fun x y c => if onBorder g.size.toNat x y then flood ocean c else c

def step (g : Grid Cell) (job : Job) : Grid Cell :=
  (floodBorder (job.reaches.foldl pour g) job.ocean).map settleCell

end Fluid

end Terrarium
