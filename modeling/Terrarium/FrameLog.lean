import Terrarium.Duration
import Terrarium.Memory

namespace Terrarium

/-- What is known about the frames so far. -/
structure FrameStats where
  frames : Nat
  executed : Nat
  failed : Nat
  overruns : Nat
  last : Duration
  average : Duration
  longest : Duration
deriving DecidableEq, Repr

def FrameStats.initial : FrameStats := ⟨0, 0, 0, 0, .zero, .zero, .zero⟩

/-- Statistics, and the durations of the last frames. The ring is overwritten from `next` on once it
is full. -/
structure FrameLog where
  window : Nat
  budget : Duration
  ring : Array Duration
  next : Nat
  stats : FrameStats
deriving DecidableEq, Repr

namespace FrameLog

/-- Whether a window can be held in memory. A duration takes sixteen bytes. -/
def fits (window : Nat) : Bool := Memory.holds window 16

/-- An empty log; its window has room for one frame at least. -/
def new (window : Nat) (budget : Duration) : FrameLog := ⟨max window 1, budget, #[], 0, .initial⟩

/-- How many frames the window holds. -/
def windowLength (l : FrameLog) : Nat := l.ring.size

/-- The ring with one more duration. -/
def ringWith (l : FrameLog) (elapsed : Duration) : Array Duration :=
  if l.ring.size < l.window then l.ring.push elapsed else l.ring.setIfInBounds l.next elapsed

/-- The longest of some durations. -/
def longestOf (ds : List Duration) : Duration := ⟨ds.foldl (fun n d => max n d.nanos) 0⟩

/-- Records a frame, and says whether it overran the budget. Nothing comes of it if the durations in
the window have no sum. -/
def record (l : FrameLog) (elapsed : Duration) (executed failed : Nat) : Option (Bool × FrameLog) :=
  let ring := l.ringWith elapsed
  match Duration.sum? ring.toList with
  | none => none
  | some total =>
      let overran := decide (l.budget.nanos < elapsed.nanos)
      let stats : FrameStats :=
        { frames := l.stats.frames + 1
          executed := l.stats.executed + executed
          failed := l.stats.failed + failed
          overruns := l.stats.overruns + overran.toNat
          last := elapsed
          average := ⟨total.nanos / ring.size⟩
          longest := longestOf ring.toList }
      some (overran, { l with ring, next := (l.next + 1) % l.window, stats })

end FrameLog

end Terrarium
