namespace Polyphony

inductive Command
  | suspend
  | resume
  | stop
  deriving DecidableEq, Repr

namespace Command

def label : Command → String
  | suspend => "Suspend"
  | resume => "Resume"
  | stop => "Stop"

end Command

inductive Transport
  | running
  /-- The clock stands still and keeps its position. -/
  | suspended
  | closed
  deriving DecidableEq, Repr

namespace Transport

def canSuspend (s : Transport) : Bool := s = running

def canResume (s : Transport) : Bool := s = suspended

def isClosed (s : Transport) : Bool := s = closed

def name : Transport → String
  | running => "running"
  | suspended => "suspended"
  | closed => "closed"

/-- The state after a command. One that does not apply changes nothing. -/
def apply : Transport → Command → Transport
  | closed, _ => closed
  | _, .stop => closed
  | running, .suspend => suspended
  | suspended, .resume => running
  | s, _ => s

end Transport

end Polyphony
