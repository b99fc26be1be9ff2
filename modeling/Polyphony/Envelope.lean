import Polyphony.Number.Order
import Polyphony.Number.Single

namespace Polyphony

/-- A share of a note's length: what is negative or not finite counts as none. -/
def share (x : Float) : Float :=
  if x.isFinite then larger x 0.0 else 0.0

/-- Attack, decay and release as shares of a note's length, and the level that is held between. -/
structure Adsr where
  attack : Float
  decay : Float
  sustain : Float
  release : Float
  deriving DecidableEq

namespace Adsr

def ofShares (attack decay sustain release : Float) : Adsr where
  attack := share attack
  decay := share decay
  sustain := smaller (share sustain) 1.0
  release := share release

def standard : Adsr := ofShares 0.01 0.01 1.0 0.01

end Adsr

/-- The release ends here and not at zero, so that exponential ramps can follow it. -/
def releaseFloor : Float32 := 0.00001

structure Breakpoint where
  time : Float
  level : Float32
  deriving DecidableEq

inductive Stage
  | idle
  | attack
  | decay
  | sustain
  | release
  deriving DecidableEq, Repr

/-- The gain curve of one note: straight lines through five breakpoints. -/
structure Envelope where
  start : Breakpoint
  peak : Breakpoint
  settled : Breakpoint
  stop : Breakpoint
  finish : Breakpoint
  deriving DecidableEq

namespace Envelope

/-- The envelope of a note from `start` to `stop`. The ramps up and down are cut off at `stop`;
the release runs on after it. -/
def forNote (start stop : Float) (adsr : Adsr) : Envelope :=
  let length := stop - start
  let level := narrow adsr.sustain
  let peak := smaller (start + length * adsr.attack) stop
  let settled := smaller (peak + length * adsr.decay) stop
  { start := ⟨start, 0.0⟩
    peak := ⟨peak, 1.0⟩
    settled := ⟨settled, level⟩
    stop := ⟨stop, level⟩
    finish := ⟨stop + length * adsr.release, releaseFloor⟩ }

def toList (e : Envelope) : List Breakpoint :=
  [e.start, e.peak, e.settled, e.stop, e.finish]

def startTime (e : Envelope) : Float := e.start.time

def finishTime (e : Envelope) : Float := e.finish.time

def ramp (a b : Breakpoint) (t : Float) : Float32 :=
  a.level + (b.level - a.level) * narrow ((t - a.time) / (b.time - a.time))

/-- The gain at a time: silence outside the note, otherwise the line that leaves the last
breakpoint reached. -/
def levelAt (e : Envelope) (t : Float) : Float32 :=
  if t < e.start.time || e.finish.time < t then 0.0
  else if e.finish.time ≤ t then e.finish.level
  else if e.stop.time ≤ t then ramp e.stop e.finish t
  else if e.settled.time ≤ t then ramp e.settled e.stop t
  else if e.peak.time ≤ t then ramp e.peak e.settled t
  else ramp e.start e.peak t

def stageAt (e : Envelope) (t : Float) : Stage :=
  if t < e.start.time || e.finish.time < t then .idle
  else if t < e.peak.time then .attack
  else if t < e.settled.time then .decay
  else if t < e.stop.time then .sustain
  else .release

end Envelope

end Polyphony
