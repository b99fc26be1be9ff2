import Polyphony.Settings

namespace Polyphony

structure Track where
  label : String
  /-- From where to where something sounds, in seconds. -/
  spans : List (Float × Float)
  deriving DecidableEq

structure Score where
  sampleRate : Float
  finishTime : Float
  tracks : List Track
  deriving DecidableEq

namespace Score

def label (s : VoiceSettings) : String := s!"{s.waveform.name} {s.bpm.toNat}"

def track (schedule : VoiceSchedule) (s : VoiceSettings) : Track where
  label := label s
  spans := schedule.entries.toList.map fun e ↦ (e.startTime, e.finishTime)

def ofSession (s : Session) (settings : List VoiceSettings) (sampleRate : Float) : Score where
  sampleRate := sampleRate
  finishTime := s.finishTime
  tracks := s.voices.zipWith track settings

end Score

end Polyphony
