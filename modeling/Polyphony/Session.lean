import Polyphony.Schedule

namespace Polyphony

structure Voice where
  melody : String
  /-- Quarter notes per minute. -/
  bpm : Float := 100.0
  adsr : Adsr := .standard
  waveform : Waveform := .sine
  deriving DecidableEq

structure Session where
  voices : List VoiceSchedule
  /-- The latest finish of a voice; 0 where there is none. -/
  finishTime : Float
  deriving DecidableEq

namespace Session

/-- Everything has been played, strictly after the finish. -/
def isFinishedAt (s : Session) (t : Float) : Bool := s.finishTime < t

def entryCount (s : Session) : Nat :=
  s.voices.foldl (fun n v ↦ n + v.entries.size) 0

def latestFinish (voices : List VoiceSchedule) : Float :=
  (voices.map VoiceSchedule.finishTime).foldl larger 0.0

end Session

variable [Elementary]

def Voice.schedule (v : Voice) : Except Failure VoiceSchedule :=
  match WrittenNote.parseAll v.melody with
  | .error e => .error (.refused e)
  | .ok notes => VoiceSchedule.build notes v.bpm v.adsr v.waveform

def Failure.ofVoice (index : Nat) : Failure → Failure
  | .refused e => .refused (.voice index e)
  | .arithmetic f => .arithmetic f

/-- Schedules the voices from `index` on; the first that fails is reported with its index. -/
def Session.schedules (index : Nat) : List Voice → Except Failure (List VoiceSchedule)
  | [] => .ok []
  | v :: vs =>
    match v.schedule with
    | .error f => .error (f.ofVoice index)
    | .ok s => (schedules (index + 1) vs).map (s :: ·)

def Session.build (voices : List Voice) : Except Failure Session :=
  (schedules 0 voices).map fun s ↦ ⟨s, latestFinish s⟩

end Polyphony
