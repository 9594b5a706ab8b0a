import Terrarium.Client.Transport
import Terrarium.FrameLog

namespace Terrarium

/-- What is left at the end. -/
structure Report where
  executed : Nat
  failed : Nat
  callbackFailures : Nat
  objects : Nat
  maxHeight : Float32
  volume : Float32

namespace Report

def summary (r : Report) : String :=
  "objects=" ++ toString r.objects ++ " max_height=" ++ Decimal.twoPlaces r.maxHeight ++
    " fluid_volume=" ++ Decimal.twoPlaces r.volume

/-- A number as JSON has it, if it has it. -/
def number (x : Float32) : String :=
  match Binary.valueOfSingle x with
  | .finite negative mantissa scale =>
      Decimal.scientificText (Binary.doubleOfValue (.finite negative mantissa scale))
  | _ => "null"

/-- The report and the statistics of its frames as an object of JSON, by the names of its
members. -/
def json (r : Report) (t : FrameStats) : String :=
  let members :=
    [("avg_frame_us", toString (t.average.nanos / 1000)),
      ("callback_failures", toString r.callbackFailures),
      ("fluid_volume", number r.volume),
      ("frames", toString t.frames),
      ("max_frame_us", toString (t.longest.nanos / 1000)),
      ("max_height", number r.maxHeight),
      ("objects", toString r.objects),
      ("ops_executed", toString r.executed),
      ("ops_failed", toString r.failed),
      ("overruns", toString t.overruns)]
  "\x7b\n" ++ ",\n".intercalate (members.map fun m => "  \"" ++ m.1 ++ "\": " ++ m.2) ++ "\n\x7d\n"

/-- The report and the statistics of its frames in lines. -/
def lines (r : Report) (t : FrameStats) : String :=
  "frames=" ++ toString t.frames ++ " ops=" ++ toString r.executed ++ " failed=" ++
    toString r.failed ++ " overruns=" ++ toString t.overruns ++ "\nframe time: avg=" ++
    t.average.text ++ " max=" ++ t.longest.text ++ "\n" ++ r.summary ++ "\n"

/-- The report and the statistics of its frames, as they are printed. -/
def text (r : Report) (t : FrameStats) (asJson : Bool) : String :=
  if asJson then r.json t else r.lines t

end Report

/-- A workload under way: the simulation, the client that works on it, and how many callbacks were
told of a failure. -/
structure Workload where
  size : Float32
  client : Client Unit
  sim : Simulation
  callbackFailures : Nat

namespace Workload

def channel : Channel := 0

/-- The way from the client to the simulation. -/
def transport : Transport Simulation := .direct channel

def centre (size : Float32) : Point := ⟨size / 2, size / 2⟩

def source (size : Float32) : Operation := .sourceCreate .null (centre size) 4 40 50

/-- The place of the brush with a number: each goes a tenth of a radian on, half way between the
middle and the edge. -/
def brushPlace (size : Float32) (number : Nat) : Point :=
  let angle := (UInt64.ofNat number).toFloat32 * 0.1
  centre size + ⟨angle.cos * (size / 4), angle.sin * (size / 4)⟩

def brush (size : Float32) (number : Nat) : Operation :=
  let place := brushPlace size number
  .terraformRaise (.uniform place.x place.y 9 0.5)

/-- Sends an operation, with a callback or without. -/
def send (w : Workload) (op : Operation) (callback : Option Unit) : Workload :=
  let (_, client, sim) := w.client.send transport w.sim op callback
  { w with client, sim }

/-- Hears the responses that have come. -/
def pump (w : Workload) : Workload :=
  let (_, calls, client, sim) := w.client.pump transport w.sim
  { w with client, sim,
           callbackFailures := w.callbackFailures + calls.countP fun c => !c.2.isSuccess }

def start (s : Settings) : Except StartError Workload :=
  (Simulation.start s).map fun sim =>
    let size := s.size.toFloat32
    send ⟨size, .new, sim, 0⟩ (source size) none

/-- Submits the brushes of a tick. -/
def submit (w : Workload) (brushes tick : Nat) : Workload :=
  (List.range brushes).foldl
    (fun w i => w.send (brush w.size (tick * brushes + i)) (some ())) w

/-- One tick: its brushes, a frame, and the responses. -/
def tick (w : Workload) (brushes tick : Nat) : Workload :=
  let w := w.submit brushes tick
  { w with sim := w.sim.frame }.pump

/-- Comes to the end of the work. -/
def finish (w : Workload) : Workload := { w with sim := w.sim.settle }.pump

def leastFinite : Float32 := Float32.ofBits 0xff7fffff

def report (w : Workload) : Report where
  executed := w.sim.executed
  failed := w.sim.failed
  callbackFailures := w.callbackFailures
  objects := w.sim.world.objects.size
  maxHeight := w.sim.world.ground.heights.toList.foldl Single.larger leastFinite
  volume := Fluid.volume w.sim.world.basin.front

def ticks (brushes : Nat) (w : Workload) (count : Nat) : Workload :=
  count.fold (fun tick _ w => w.tick brushes tick) w

/-- A whole run. Without ticks there is nothing to wait for, and the report is on the world before
its first frame. -/
def run (s : Settings) (count brushes : Nat) : Except StartError Report :=
  (start s).map fun w => (if count = 0 then w else (ticks brushes w count).finish).report

end Workload

end Terrarium
