import Terrarium.Fluid.Step

/-!
The basin holds the fluid twice. Operations write the back buffer; a started step is worked off
in the background, where it advances the back buffer and then publishes a copy of it as the front
buffer. Steps are worked off in the order in which they were started, each with the sources and
the ocean level of that moment, and the back buffer is only written when no step is under way.
-/
namespace Terrarium

/-- The fluid over the ground. -/
structure Basin where
  ocean : Float32
  sources : List ObjectId
  reaches : List Reach
  stale : Bool
  back : Grid Cell
  front : Grid Cell
  waiting : List Job
  started : Nat
  finished : Nat

namespace Basin

/-- A dry basin on the ground, without sources. -/
def new (m : HeightMap) : Basin where
  ocean := 0
  sources := []
  reaches := []
  stale := false
  back := Fluid.dry m
  front := Fluid.dry m
  waiting := []
  started := 0
  finished := 0

/-- The number of cells on each axis. -/
def size (b : Basin) : UInt32 := b.back.size

/-- Starts a step with the sources and the ocean level of this moment. -/
def start (b : Basin) : Basin :=
  { b with
    waiting := b.waiting ++ [⟨b.reaches, b.ocean⟩]
    started := b.started + 1 }

/-- Background work: runs the oldest waiting step on the back buffer and publishes the result. -/
def publish (b : Basin) : Basin :=
  match b.waiting with
  | [] => b
  | job :: rest =>
      let after := Fluid.step b.back job
      { b with back := after, front := after, waiting := rest }

/-- Background work: counts a published step as finished. -/
def finish (b : Basin) : Basin :=
  if b.finished + b.waiting.length < b.started then { b with finished := b.finished + 1 } else b

/-- Whether every started step is finished. -/
def isIdle (b : Basin) : Bool := b.finished = b.started

/-- Lets the background work on the steps that are under way come to its end. -/
def wait (b : Basin) : Basin :=
  let after := b.waiting.foldl Fluid.step b.back
  { b with
    back := after
    front := if b.waiting.isEmpty then b.front else after
    waiting := []
    finished := b.started }

/-- Changes the back buffer, after the steps under way. -/
def write (b : Basin) (f : Grid Cell → Grid Cell) : Basin :=
  let b := b.wait
  { b with back := f b.back }

/-- Sets the level of the ocean. -/
def setOcean (b : Basin) (level : Float32) : Basin := { b with ocean := level }

def reset (b : Basin) : Basin := b.write fun g => g.map fun c => { c with depth := 0 }

def addSource (b : Basin) (id : ObjectId) : Basin :=
  { b with
    sources := if id ∈ b.sources then b.sources else b.sources ++ [id]
    stale := true }

def removeSource (b : Basin) (id : ObjectId) : Basin :=
  { b with sources := b.sources.filter (· ≠ id), stale := true }

/-- Notes that parameters of a source changed. -/
def invalidate (b : Basin) : Basin := { b with stale := true }

/-- Copies the parameters of the registered sources anew and forgets those that are gone. -/
def mapSources (b : Basin) (source? : ObjectId → Option Source) : Basin :=
  { b with
    sources := b.sources.filter fun id => (source? id).isSome
    reaches := (b.sources.filterMap source?).map fun s => Reach.ofSource s b.size
    stale := false }

/-- Copies the heights of the ground in a rectangle into the cells of the back buffer. -/
def groundUpdated (b : Basin) (r : Rect) (m : HeightMap) : Basin :=
  let r := r.clipped (min b.size m.size)
  if r.isEmpty then b
  else
    b.write fun g =>
      r.cells.foldl
        (fun g p =>
          match m.heightAt p.1 p.2 with
          | some h => g.modify p.1 p.2 fun c => { c with ground := h }
          | none => g)
        g

end Basin

end Terrarium
