import Polyphony.Account
import Polyphony.CommandLine
import Polyphony.Main
import Polyphony.Player
import Polyphony.Proofs.CommandLine.Arguments
import Polyphony.Proofs.CommandLine.Decision
import Polyphony.Proofs.Journal
import Polyphony.Proofs.Notation.Faults
import Polyphony.Proofs.Notation.Frequency
import Polyphony.Proofs.Notation.Grammar
import Polyphony.Proofs.Notation.LowestTerms
import Polyphony.Proofs.Notation.Quantity
import Polyphony.Proofs.Notation.Words
import Polyphony.Proofs.Number.Floating
import Polyphony.Proofs.Number.Interval
import Polyphony.Proofs.Number.Propagation
import Polyphony.Proofs.Number.Single
import Polyphony.Proofs.Number.Whole
import Polyphony.Proofs.Playback.Callback
import Polyphony.Proofs.Playback.Commands
import Polyphony.Proofs.Playback.Endings
import Polyphony.Proofs.Playback.History
import Polyphony.Proofs.Playback.Interleaving
import Polyphony.Proofs.Playback.Observations
import Polyphony.Proofs.Playback.Readings
import Polyphony.Proofs.Playback.Silence
import Polyphony.Proofs.Renderer.Amplitude
import Polyphony.Proofs.Renderer.Bookkeeping
import Polyphony.Proofs.Renderer.Continuity
import Polyphony.Proofs.Renderer.Finish
import Polyphony.Proofs.Renderer.Sounding
import Polyphony.Proofs.Schedule.Bounds
import Polyphony.Proofs.Schedule.ClosedForm
import Polyphony.Proofs.Schedule.Drift
import Polyphony.Proofs.Schedule.Latest
import Polyphony.Proofs.Schedule.Level
import Polyphony.Proofs.Schedule.Segments
import Polyphony.Proofs.Schedule.Tempo
import Polyphony.Proofs.Schedule.TimeOrder
import Polyphony.Proofs.Screen.Timeline
import Polyphony.Proofs.Settings.Playability
import Polyphony.Proofs.Settings.Safety
import Polyphony.Proofs.Settings.Validity
