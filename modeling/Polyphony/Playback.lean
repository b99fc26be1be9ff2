import Polyphony.NoteValue
import Polyphony.Queue
import Polyphony.Reading

namespace Polyphony

def longestBlock : Nat := 2048

def blockLengths (n : Nat) : List Nat :=
  List.replicate (n / longestBlock) longestBlock ++
    if n % longestBlock = 0 then [] else [n % longestBlock]

/-- Gives each sample to all channels of its frame. What lies behind the last frame keeps its
value. -/
def interleave (channels : Nat) (samples buffer : Array Float32) : Array Float32 :=
  buffer.mapIdx fun i old ↦ (samples[i / channels]?).getD old

def Renderer.blocks [Elementary] (r : Renderer) : List Nat → Array Float32 × Renderer
  | [] => (#[], r)
  | n :: ns =>
    let (out, r) := r.block n
    let (rest, r) := blocks r ns
    (out ++ rest, r)

structure Playback where
  renderer : Renderer
  control : Queue Command
  readings : Queue Reading

namespace Playback

def controlCapacity : Nat := 16

def readingCapacity : Nat := 64

def ofSession (s : Session) (sampleRate : Float) : Playback where
  renderer := .ofSession s sampleRate
  control := .ofCapacity controlCapacity
  readings := .ofCapacity readingCapacity

/-- Obeys all commands, fills the buffer of a device, and leaves a reading if there is room for
it. -/
def callback [Elementary] (p : Playback) (channels : Nat) (buffer : Array Float32) :
    Except ArithmeticFault (Array Float32 × Playback) :=
  let (commands, control) := p.control.drain
  let renderer := p.renderer.handleAll commands
  if channels = 0 then .error .zeroDivisor
  else
    let (samples, renderer) := renderer.blocks (blockLengths (buffer.size / channels))
    .ok (interleave channels samples buffer,
      { renderer, control, readings := p.readings.offer (.ofRenderer renderer) })

end Playback

end Polyphony
