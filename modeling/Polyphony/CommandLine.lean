import Polyphony.Settings

namespace Polyphony.CommandLine

def usage : String := "\n".intercalate
  ["usage: spn-play [--preset NAME] [--bpm N] [--wave NAME] NOTATION ...",
   "",
   "Each NOTATION is one voice, e.g. \"C4/4 E4/4 G4/2 _/4 C5/4\".",
   "Options apply to the voice that follows them.",
   "",
   "  --preset NAME   piano | synthesizer | drums",
   "  --bpm N         tempo, 10 to 300",
   "  --wave NAME     sine | sawtooth | square | triangle",
   "  -h, --help      print this message",
   "",
   "Keys: Space suspend/resume, q or Esc stop"]

def demoMelody : String :=
  "E4/4 E4/4 E4/4 D#4/8. A#4/16 E4/4 D#4/8. A#4/16 E4/2 " ++
  "D5/4 D5/4 D5/4 D#5/8. A#4/16 F#4/4 D#4/8. A#4/16 E4/2"

/-- An option. The argument after it is its value, whatever that looks like. -/
inductive Flag
  | preset
  | bpm
  | wave
  deriving DecidableEq, Repr

def Flag.name : Flag → String
  | preset => "--preset"
  | bpm => "--bpm"
  | wave => "--wave"

inductive Argument
  | help
  | flag (f : Flag)
  | unknown
  | melody
  deriving DecidableEq, Repr

def Argument.ofString (s : String) : Argument :=
  if s = "-h" || s = "--help" then help
  else
    match [Flag.preset, .bpm, .wave].find? fun f ↦ f.name = s with
    | some f => flag f
    | none => if ['-', '-'].isPrefixOf s.toList then unknown else melody

inductive Fault
  | missingValue (f : Flag)
  | tempo (text : String) (cause : Text.NumeralFault)
  /-- No preset or waveform has the name. -/
  | name (e : Error)
  | unknownOption (text : String)
  | trailingOptions

def Fault.chain : Fault → List String
  | missingValue f => [f.name ++ " needs a value"]
  | tempo text cause => [s!"--bpm expects a whole number, got `{text}`", cause.message]
  | name e => [e.message]
  | unknownOption text => [s!"unknown option `{text}`" ++ "\n\n" ++ usage]
  | trailingOptions => ["options after the last notation have no voice to apply to"]

/-- Options that wait for their melody. Of each kind the last one counts. -/
structure Options where
  preset : Option Preset := none
  bpm : Option UInt32 := none
  wave : Option Waveform := none
  deriving DecidableEq

namespace Options

def isEmpty (o : Options) : Bool :=
  o.preset.isNone && o.bpm.isNone && o.wave.isNone

def set (o : Options) (f : Flag) (text : String) : Except Fault Options :=
  match f with
  | .preset => ((Preset.ofName text).mapError .name).map fun p ↦ { o with preset := some p }
  | .bpm => ((Text.word32 text.toList).mapError (.tempo text)).map fun n ↦ { o with bpm := some n }
  | .wave => ((Waveform.ofName text).mapError .name).map fun w ↦ { o with wave := some w }

/-- The settings of a melody: the preset's, or an editor's defaults, of which tempo and waveform
are overridden. -/
def settings (o : Options) (melody : String) : VoiceSettings :=
  let base := match o.preset with
    | some p => p.settings melody
    | none => { melody }
  { base with bpm := o.bpm.getD base.bpm, waveform := o.wave.getD base.waveform }

end Options

inductive Request
  | play (c : Composition)
  | help

def finish (c : Composition) (o : Options) : Except Fault Request :=
  if c.voices.isEmpty then
    let demo := { o with preset := some (o.preset.getD .piano) }
    .ok (.play (c.add (demo.settings demoMelody)))
  else if o.isEmpty then .ok (.play c)
  else .error .trailingOptions

def readFrom (c : Composition) (o : Options) : List String → Except Fault Request
  | [] => finish c o
  | arg :: rest =>
    match Argument.ofString arg with
    | .help => .ok .help
    | .unknown => .error (.unknownOption arg)
    | .melody => readFrom (c.add (o.settings arg)) {} rest
    | .flag f =>
      match rest with
      | [] => .error (.missingValue f)
      | value :: rest =>
        match o.set f value with
        | .error fault => .error fault
        | .ok o => readFrom c o rest

def read (args : List String) : Except Fault Request := readFrom {} {} args

end Polyphony.CommandLine
