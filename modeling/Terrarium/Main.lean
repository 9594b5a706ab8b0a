import Terrarium.CommandLine
import Terrarium.FrameLog

namespace Terrarium.Main

open CommandLine

/-- The contents of a file, if it can be read. -/
def contents (path : String) : IO (Option (List UInt8)) := do
  try
    let bytes ← IO.FS.readBinFile path
    return some bytes.toList
  catch _ => return none

/-- Waits for a moment, given in nanoseconds. -/
def waitUntil (moment : Nat) : IO Unit := do
  let now ← IO.monoNanosNow
  if now < moment then IO.sleep (UInt32.ofNat ((moment - now) / 1000000))

/-- Takes the ticks of a workload, each after its time has come, and logs how long they take. -/
def work (s : Settings) (o : RunOptions) (log : FrameLog) (w : Workload) :
    IO (FrameLog × Workload) := do
  let begun ← IO.monoNanosNow
  let mut log := log
  let mut w := w
  for tick in [0:o.ticks] do
    waitUntil (begun + (tick + 1) * s.tick.nanos)
    let before ← IO.monoNanosNow
    let executed := w.sim.executed
    let failed := w.sim.failed
    w := w.tick o.brushes tick
    let after ← IO.monoNanosNow
    match log.record ⟨after - before⟩ (w.sim.executed - executed) (w.sim.failed - failed) with
    | some (_, next) => log := next
    | none => pure ()
  return (log, w.finish)

/-- Runs the workload and prints the report. -/
def run (o : RunOptions) : IO UInt32 := do
  let config ← match o.config with
    | none => pure none
    | some path => pure (some (← contents path))
  match CommandLine.settings config with
  | .error e =>
      IO.eprintln ("Error: load config: " ++ o.config.getD "" ++ "\n" ++ e.message?.getD "")
      return 1
  | .ok s =>
      match Workload.start s, s.threshold? with
      | .ok w, some budget =>
          let (log, w) ← work s o (.new s.history.toNat budget) w
          IO.print (w.report.text log.stats o.json)
          return 0
      | .error (.settings e), _ =>
          IO.eprintln ("Error: start server\n" ++ e.message?.getD "")
          return 1
      | _, _ => return 101

end Terrarium.Main

open Terrarium CommandLine in
/-- Does what the arguments ask for. -/
def main (args : List String) : IO UInt32 := do
  match request args with
  | .run o => Terrarium.Main.run o
  | .misuse =>
      IO.eprint (Topic.text .program)
      return 2
  | .info => IO.print versions; return 0
  | .defaultConfig => IO.print Settings.standard.text; return 0
  | .help topic => IO.print topic.text; return 0
