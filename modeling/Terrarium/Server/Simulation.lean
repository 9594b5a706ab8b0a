import Terrarium.FrameLog
import Terrarium.Server.Queue
import Terrarium.Settings
import Terrarium.World

/-!
A running simulation: the world, the operations that wait for it, and the responses that wait to be
collected. Frames are taken one at a time.
-/
namespace Terrarium

/-- Why a simulation does not start. -/
inductive StartError where
  | settings (e : SettingsError)
  | tooLarge
  | thresholdOutOfRange
deriving DecidableEq, Repr

/-- A world in motion. -/
structure Simulation where
  world : World
  queue : OperationQueue
  posted : List (Channel × Response)
  executed : Nat
  failed : Nat

namespace Simulation

/-- A simulation of a world, before its first frame. -/
def ofWorld (w : World) : Simulation := ⟨w, .empty, [], 0, 0⟩

/-- Starts a simulation. The settings have to be in order, the ground and the statistics have to fit
into memory, and the time from which a frame overruns has to be a duration. -/
def start (s : Settings) : Except StartError Simulation :=
  match s.check with
  | .error e => .error (.settings e)
  | .ok s =>
      if !HeightMap.fits s.size || !FrameLog.fits s.history.toNat then .error .tooLarge
      else
        match s.threshold? with
        | none => .error .thresholdOutOfRange
        | some _ => .ok (ofWorld (World.new s.size))

def enqueue (s : Simulation) (op : Operation) : Simulation :=
  { s with queue := s.queue.push (.silent op) }

def enqueueAll (s : Simulation) (ops : List Operation) : Simulation :=
  { s with queue := s.queue.pushAll (ops.map .silent) }

/-- Queues a command, whose response goes to a channel. -/
def submit (s : Simulation) (c : Command) (channel : Channel) : Simulation :=
  { s with queue := s.queue.push (.ofCommand c channel) }

def answers (batch : List QueuedOperation) (outcomes : List Outcome) : List (Channel × Response) :=
  (batch.zip outcomes).filterMap fun (q, outcome) => q.answer? outcome

/-- Takes one frame: the fluid step under way comes to its end, everything that waits is executed in
order and answered, and the next fluid step begins. -/
def frame (s : Simulation) : Simulation :=
  let (batch, queue) := s.queue.takeAll
  let (outcomes, world) := s.world.wait.frame (batch.map (·.op))
  { world
    queue
    posted := s.posted ++ answers batch outcomes
    executed := s.executed + outcomes.length
    failed := s.failed + outcomes.countP fun o => !o.isSuccess }

def frames : Nat → Simulation → Simulation
  | 0, s => s
  | n + 1, s => frames n s.frame

/-- Comes to rest: everything that waits is executed, the fluid flows twice more, and its last step
comes to its end. -/
def settle (s : Simulation) : Simulation :=
  let s := s.frames 3
  { s with world := s.world.wait }

/-- Collects the responses on a channel, in their order. -/
def collect (s : Simulation) (channel : Channel) : List Response × Simulation :=
  (s.posted.filterMap fun (c, r) => if c = channel then some r else none,
    { s with posted := s.posted.filter fun (c, _) => c ≠ channel })

end Simulation

end Terrarium
