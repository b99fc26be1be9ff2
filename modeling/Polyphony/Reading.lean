import Polyphony.Renderer

namespace Polyphony

structure Reading where
  time : Float
  transport : Transport
  /-- Which of the voices that can be shown are sounding. -/
  active : List Bool
  deriving DecidableEq

namespace Reading

def shownVoices : Nat := 8

def start : Reading := ⟨0.0, .running, List.replicate shownVoices false⟩

def ofRenderer (r : Renderer) : Reading where
  time := r.time
  transport := r.transport
  active := (List.range shownVoices).map r.isVoiceActive

def isActive (r : Reading) (voice : Nat) : Bool := (r.active[voice]?).getD false

end Reading

end Polyphony
