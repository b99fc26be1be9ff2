import Polyphony.Console
import Polyphony.Playback
import Polyphony.Screen.Terminal
import Polyphony.Screen.View

namespace Polyphony

inductive Device
  | missing
  | unconfigured (text : String)
  | present (sampleRate : UInt32) (channels : Nat) (buildFault playFault : Option String)

inductive PlayFault
  | refused (e : Error)
  | arithmetic (f : ArithmeticFault)
  | noDevice
  | configuration (text : String)
  | stream (text : String)
  | terminal (text : String)

namespace PlayFault

def ofFailure : Failure → PlayFault
  | .refused e => refused e
  | .arithmetic f => arithmetic f

def chain : PlayFault → List String
  | refused e =>
    match e.offendingUnit? with
    | some text => [e.message ++ "\n  offending unit: " ++ text]
    | none => [e.message]
  | arithmetic f => [f.message]
  | noDevice => ["no default output device available"]
  | configuration text => ["failed to fetch default output config", text]
  | stream text | terminal text => [text]

end PlayFault

inductive DeviceEvent
  | callback (buffer : Array Float32)
  | failure (text : String)

/-- What happens between two drawings of the screen. -/
structure Turn where
  drawFault : Option String := none
  waiting : List DeviceEvent := []
  /-- What the console has waited for, if anything came, or why it cannot wait. -/
  input : Except String (Option Input) := .ok none
  handling : List DeviceEvent := []

structure Display where
  width : Nat := 80
  height : Nat := 24
  showsJournal : Bool := true

structure Player where
  score : Score
  channels : Nat
  playback : Playback
  console : Console
  journal : Journal
  display : Display

namespace Player

def start (s : Session) (settings : List VoiceSettings) (sampleRate : UInt32) (channels : Nat)
    (journal : Journal) (display : Display) : Player where
  score := .ofSession s settings sampleRate.toFloat
  channels := channels
  playback := .ofSession s sampleRate.toFloat
  console := .start s.finishTime
  journal := journal
  display := display

def sessionRecord (s : Session) (sampleRate : UInt32) : Record :=
  ⟨.info, s!"{s.voices.length} voices, {s.entryCount} notes, " ++ Decimal.fixed 2 s.finishTime ++
    "s at " ++ Decimal.shortest sampleRate.toFloat ++ " Hz"⟩

def openRecords (s : Session) : Device → List Record
  | .present sampleRate .. =>
    [sessionRecord s sampleRate, (Playback.ofSession s sampleRate.toFloat).renderer.record]
  | _ => []

def ofDevice? (s : Session) (settings : List VoiceSettings) (d : Device) (journal : Journal)
    (display : Display) : Except PlayFault Player :=
  match d with
  | .missing => .error .noDevice
  | .unconfigured text => .error (.configuration text)
  | .present _ _ (some text) _ | .present _ _ none (some text) => .error (.stream text)
  | .present sampleRate channels none none =>
    .ok (start s settings sampleRate channels (journal.noteAll (openRecords s d)) display)

def note (p : Player) (r : Record) : Player := { p with journal := p.journal.note r }

def view (p : Player) : Screen.View where
  score := p.score
  reading := p.console.reading
  records := if p.display.showsJournal then p.journal.recent Screen.View.shownRecords else []

def drawing (p : Player) : Except ArithmeticFault (List Screen.Row) :=
  p.view.draw p.display.width p.display.height

def refresh (p : Player) : Player :=
  let (readings, rest) := p.playback.readings.drain
  let console := p.console.observe readings
  { p with
    playback.readings := rest
    console := console.check
    journal := p.journal.noteAll
      (Console.changeRecords p.console.reading readings ++ console.checkRecords) }

/-- Hands a command over to the next callback. A full queue drops it with a warning. -/
def send (p : Player) (c : Command) : Player :=
  match p.playback.control.push? c with
  | some control => { p with playback.control := control }
  | none => p.note ⟨.warn, "control queue full, dropped " ++ c.label⟩

def press (p : Player) (k : Key) : Player :=
  let sent := match p.console.command? k with
    | some c => p.send c
    | none => p
  { sent with console := p.console.press k }

def handle (p : Player) : Input → Player
  | .key k .press => p.press k
  | _ => p

def close (p : Player) : Player :=
  { p with playback.renderer := p.playback.renderer.handle .stop }

inductive Ending
  | exit (e : Exit)
  | fault (f : PlayFault)
  | ongoing

structure PlayedTurn where
  drawing : List Screen.Row
  filled : List (Array Float32)

structure Performance where
  turns : List PlayedTurn
  ending : Ending
  /-- The drawing of a turn that was not played through. -/
  lastDrawing : Option (List Screen.Row)
  player : Player

def Performance.drawings (p : Performance) : List (List Screen.Row) :=
  p.turns.map PlayedTurn.drawing ++ p.lastDrawing.toList

def Performance.screens (p : Performance) : List (List Screen.Row) :=
  (Screen.Terminal.blank p.player.display.width p.player.display.height).screens p.drawings

variable [Elementary]

def serve (p : Player) :
    List DeviceEvent → Except (PlayFault × Player) (List (Array Float32) × Player)
  | [] => .ok ([], p)
  | .failure text :: rest => serve (p.note ⟨.error, "audio stream error: " ++ text⟩) rest
  | .callback buffer :: rest =>
    match p.playback.callback p.channels buffer with
    | .error f => .error (.arithmetic f, p)
    | .ok (filled, playback) =>
      (serve { p with playback } rest).map fun (more, p) ↦ (filled :: more, p)

def playTurn (p : Player) (t : Turn) :
    Except (PlayFault × Player) (List (Array Float32) × Player) := do
  let (before, p) ← p.serve t.waiting
  match t.input with
  | .error text => .error (.terminal text, p)
  | .ok input =>
    let (after, p) ← ((input.map p.handle).getD p).serve t.handling
    return (before ++ after, p)

/-- Plays turn by turn, until the session is over, the user stops it, or something fails. Then the
device is silenced. -/
def run (p : Player) : List Turn → Performance
  | [] =>
    let p := p.refresh
    match p.console.exit, p.drawing with
    | some e, _ => ⟨[], .exit e, none, p.close⟩
    | none, .error f => ⟨[], .fault (.arithmetic f), none, p.close⟩
    | none, .ok drawing => ⟨[], .ongoing, some drawing, p⟩
  | t :: rest =>
    let p := p.refresh
    match p.console.exit, t.drawFault, p.drawing with
    | some e, _, _ => ⟨[], .exit e, none, p.close⟩
    | none, some text, _ => ⟨[], .fault (.terminal text), none, p.close⟩
    | none, none, .error f => ⟨[], .fault (.arithmetic f), none, p.close⟩
    | none, none, .ok drawing =>
      match p.playTurn t with
      | .error (f, failed) => ⟨[], .fault f, some drawing, failed.close⟩
      | .ok (filled, next) =>
        let performance := run next rest
        { performance with turns := ⟨drawing, filled⟩ :: performance.turns }

end Player

end Polyphony
