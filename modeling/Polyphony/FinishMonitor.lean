import Polyphony.Journal
import Polyphony.Decimal.Places
import Polyphony.Number.Order

namespace Polyphony

structure FinishMonitor where
  finishTime : Float
  finished : Bool := false

namespace FinishMonitor

/-- Whether a reading of the clock is the first one past the finish. -/
def fires (m : FinishMonitor) (t : Float) : Bool :=
  !m.finished && decide (m.finishTime < t)

def poll (m : FinishMonitor) (t : Float) : FinishMonitor :=
  { m with finished := m.finished || m.fires t }

def remaining (m : FinishMonitor) (t : Float) : Float :=
  larger (m.finishTime - t) 0.0

def pollRecords (m : FinishMonitor) (t : Float) : List Record :=
  if m.fires t then
    [⟨.debug, "playback finished at " ++ Decimal.fixed 3 t ++ "s (finish " ++
      Decimal.fixed 3 m.finishTime ++ "s)"⟩]
  else []

end FinishMonitor

end Polyphony
