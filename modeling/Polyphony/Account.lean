import Polyphony.Journal
import Polyphony.Settings

namespace Polyphony

def parsedRecord (units : Nat) : Record :=
  ⟨.debug, s!"parsed {units} notation units"⟩

def WrittenNote.parseRecords (melody : String) : List Record :=
  match parseAll melody with
  | .ok notes => [parsedRecord notes.length]
  | .error _ => []

namespace Builder

def inexactRecord (index : Nat) : Record :=
  ⟨.debug, s!"note {index}: beat position no longer exact, using float beats"⟩

def entryRecord (index : Nat) (e : Entry) : Record :=
  ⟨.trace, s!"note {index}: " ++ Decimal.shortest e.frequency ++ " Hz, " ++
    Decimal.fixed 4 e.startTime ++ "s.." ++ Decimal.fixed 4 e.stopTime ++ "s, finish " ++
    Decimal.fixed 4 e.finishTime ++ "s"⟩

variable {α : Type} [Playable α]

def pushRecords (before : Builder) (note : α) (after : Builder) : List Record :=
  let lost := before.cursor.exact.isSome && after.cursor.exact.isNone
  let inexact := if lost then [inexactRecord before.seen] else []
  match Playable.frequency note with
  | none => inexact
  | some f => inexact ++ [entryRecord before.seen (before.entry f (Playable.value note))]

/-- What appending notes reports, up to the note whose arithmetic breaks off. -/
def runRecords (b : Builder) : List α → List Record
  | [] => []
  | note :: notes =>
    match b.push note with
    | .error _ => []
    | .ok next => b.pushRecords note next ++ next.runRecords notes

end Builder

def scheduledRecord (entries notes : Nat) (bpm finish : Float) : Record :=
  ⟨.debug, s!"scheduled {entries} of {notes} notes at " ++ Decimal.shortest bpm ++
    " bpm, finish " ++ Decimal.fixed 3 finish ++ "s"⟩

def VoiceSchedule.buildRecords {α : Type} [Playable α] (notes : List α) (bpm : Float)
    (adsr : Adsr) (waveform : Waveform) : List Record :=
  match Builder.start bpm adsr waveform with
  | .error _ => []
  | .ok b => b.runRecords notes ++
    match build notes bpm adsr waveform with
    | .ok s => [scheduledRecord s.entries.size notes.length bpm s.finishTime]
    | .error _ => []

variable [Elementary]

def Voice.scheduleRecords (v : Voice) : List Record :=
  WrittenNote.parseRecords v.melody ++
    match WrittenNote.parseAll v.melody with
    | .ok notes => VoiceSchedule.buildRecords notes v.bpm v.adsr v.waveform
    | .error _ => []

namespace Session

def builtRecord (s : Session) : Record :=
  ⟨.debug, s!"session of {s.voices.length} voices, finish " ++ Decimal.fixed 3 s.finishTime ++ "s"⟩

/-- What scheduling voices reports, up to the first that fails. -/
def scheduleRecords : List Voice → List Record
  | [] => []
  | v :: vs => v.scheduleRecords ++ if v.schedule.isOk then scheduleRecords vs else []

def buildRecords (voices : List Voice) : List Record :=
  scheduleRecords voices ++
    match build voices with
    | .ok s => [s.builtRecord]
    | .error _ => []

end Session

namespace VoiceSettings

def validateRecords (s : VoiceSettings) : List Record :=
  match s.misset? with
  | some _ => []
  | none => WrittenNote.parseRecords s.melody

def evaluateRecords (s : VoiceSettings) : List Record :=
  s.validateRecords ++
    match s.validate with
    | .ok v => v.scheduleRecords
    | .error _ => []

end VoiceSettings

namespace Composition

def validateRecords : List VoiceSettings → List Record
  | [] => []
  | s :: rest => s.validateRecords ++ if s.validate.isOk then validateRecords rest else []

def sessionRecords (c : Composition) : List Record :=
  validateRecords c.voices ++
    match validated 0 c.voices with
    | .ok voices => Session.buildRecords voices
    | .error _ => []

end Composition

end Polyphony
