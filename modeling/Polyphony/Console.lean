import Polyphony.FinishMonitor
import Polyphony.Reading

namespace Polyphony

inductive Exit
  | finished
  | stopped
  deriving DecidableEq, Repr

inductive Key
  | char (c : Char)
  | escape
  | other
  deriving DecidableEq, Repr

inductive KeyAction
  | press
  | hold
  | release
  deriving DecidableEq, Repr

inductive Input
  | key (k : Key) (action : KeyAction)
  | other
  deriving DecidableEq, Repr

def Key.isQuit (k : Key) : Bool :=
  k = .char 'q' || k = .char 'Q' || k = .escape

structure Console where
  reading : Reading
  monitor : FinishMonitor
  exit : Option Exit

namespace Console

def start (finishTime : Float) : Console where
  reading := .start
  monitor := { finishTime }
  exit := none

/-- Takes in readings, the oldest first, of which the newest stays. -/
def observe (c : Console) (readings : List Reading) : Console :=
  { c with reading := readings.getLastD c.reading }

def changeRecords (before : Reading) : List Reading → List Record
  | [] => []
  | r :: rest =>
    let changes :=
      if r.transport = before.transport then []
      else [⟨Level.info, s!"playback {before.transport.name} -> {r.transport.name} at " ++
        Decimal.fixed 2 r.time ++ "s"⟩]
    changes ++ changeRecords r rest

/-- Looks whether the finish has been passed, which counts for more than a stop. -/
def check (c : Console) : Console :=
  { c with
    monitor := c.monitor.poll c.reading.time
    exit := if c.monitor.fires c.reading.time then some .finished else c.exit }

def checkRecords (c : Console) : List Record :=
  if c.monitor.fires c.reading.time then
    c.monitor.pollRecords c.reading.time ++
      [⟨.info, "finished after " ++ Decimal.fixed 2 c.reading.time ++ "s"⟩]
  else []

def command? (c : Console) (k : Key) : Option Command :=
  if k.isQuit then some .stop
  else if k = .char ' ' then
    if c.reading.transport.canSuspend then some .suspend
    else if c.reading.transport.canResume then some .resume
    else none
  else none

def press (c : Console) (k : Key) : Console :=
  if k.isQuit then { c with exit := some .stopped } else c

end Console

end Polyphony
