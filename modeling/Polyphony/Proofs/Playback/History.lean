import Mathlib.Data.List.Induction
import Polyphony.Proofs.Playback.Interleaving

namespace Polyphony

structure Change where
  source : Transport
  target : Transport
  time : Float

namespace Change

def record (c : Change) : Record :=
  ⟨.info, s!"playback {c.source.name} -> {c.target.name} at " ++ Decimal.fixed 2 c.time ++ "s"⟩

def along (before : Reading) : List Reading → List Change
  | [] => []
  | r :: rest =>
    (if r.transport = before.transport then [] else [⟨before.transport, r.transport, r.time⟩]) ++
      along r rest

end Change

/-- A moment, and the player before and after it. -/
structure Step where
  before : Player
  moment : Moment
  next : Player

namespace Step

def command? (s : Step) : Option Command :=
  match s.moment with
  | .input (.key k .press) => s.before.console.command? k
  | _ => none

def accepted? (s : Step) : Option Command :=
  s.command?.filter fun c ↦ (s.before.playback.control.push? c).isSome

def dropped? (s : Step) : Option Command :=
  s.command?.filter fun c ↦ (s.before.playback.control.push? c).isNone

def isCallback (s : Step) : Bool :=
  match s.moment with
  | .device (.callback _) => true
  | _ => false

def obeyed (s : Step) : List Command :=
  if s.isCallback then s.before.playback.control.drain.1 else []

/-- The reading that a callback takes, whether there is room for it or not. -/
def taken? (s : Step) : Option Reading :=
  if s.isCallback then some (.ofRenderer s.next.playback.renderer) else none

def popped (s : Step) : List Reading :=
  match s.moment with
  | .turn => s.before.playback.readings.drain.1
  | _ => []

def changes (s : Step) : List Change := Change.along s.before.console.reading s.popped

def dropRecord (c : Command) : Record := ⟨.warn, "control queue full, dropped " ++ c.label⟩

def records (s : Step) : List Record :=
  match s.moment with
  | .device (.callback _) => []
  | .device (.failure text) => [⟨.error, "audio stream error: " ++ text⟩]
  | .input _ => s.dropped?.toList.map dropRecord
  | .turn => s.changes.map Change.record ++ (s.before.console.observe s.popped).checkRecords

end Step

theorem changeRecords_eq (before : Reading) (rs : List Reading) :
    Console.changeRecords before rs = (Change.along before rs).map Change.record := by
  induction rs generalizing before with
  | nil => rfl
  | cons r rs ih =>
    rw [Console.changeRecords, Change.along, List.map_append, ih]
    split <;> rfl

namespace Journal

theorem noteAll_append (j : Journal) (xs ys : List Record) :
    j.noteAll (xs ++ ys) = (j.noteAll xs).noteAll ys := List.foldl_append

end Journal

namespace Player

inductive Pressed (p : Player) (k : Key) : Player → Prop
  | idle (hk : p.console.command? k = none) : Pressed p k { p with console := p.console.press k }
  | accepted {c : Command} {control : Queue Command} (hk : p.console.command? k = some c)
      (hc : p.playback.control.push? c = some control) :
      Pressed p k { p with playback.control := control, console := p.console.press k }
  | dropped {c : Command} (hk : p.console.command? k = some c)
      (hc : p.playback.control.push? c = none) :
      Pressed p k { p with
        journal := p.journal.note (Step.dropRecord c), console := p.console.press k }

theorem pressed (p : Player) (k : Key) : Pressed p k (p.press k) := by
  rw [press]
  cases hk : p.console.command? k with
  | none => exact .idle hk
  | some c =>
    simp only [send]
    cases hc : p.playback.control.push? c with
    | none => exact .dropped hk hc
    | some control => exact .accepted hk hc

variable [Elementary] {p q : Player}

def called (p : Player) (frames : ℕ) : Player :=
  { p with
    playback.renderer := (p.playback.obeyed.block frames).2
    playback.control := .ofCapacity p.playback.control.capacity
    playback.readings :=
      p.playback.readings.offer (.ofRenderer (p.playback.obeyed.block frames).2) }

theorem meet_callback_of_ne {buffer : Array Float32} (hc : p.channels ≠ 0) :
    p.meet (.device (.callback buffer)) = .ok (p.called (buffer.size / p.channels)) := by
  rw [meet, Playback.callback_eq _ hc]
  rfl

theorem meet_callback {buffer : Array Float32} (h : p.meet (.device (.callback buffer)) = .ok q) :
    p.channels ≠ 0 ∧ q = p.called (buffer.size / p.channels) := by
  by_cases hc : p.channels = 0
  · simp only [meet, Playback.callback, if_pos hc] at h
    cases h
  · rw [meet_callback_of_ne hc] at h
    exact ⟨hc, (Except.ok.inj h).symm⟩

theorem channels_meet {m : Moment} (h : p.meet m = .ok q) : q.channels = p.channels := by
  match m with
  | .device (.callback _) =>
    obtain ⟨-, rfl⟩ := meet_callback h
    rfl
  | .device (.failure _) | .turn =>
    cases h
    rfl
  | .input i =>
    obtain ⟨_, _, _, hhandle⟩ := p.handle_frame i
    cases h
    rw [hhandle]

theorem exists_meet (hc : p.channels ≠ 0) (m : Moment) : ∃ q, p.meet m = .ok q := by
  match m with
  | .device (.callback buffer) => exact ⟨_, meet_callback_of_ne hc⟩
  | .device (.failure _) | .turn | .input _ => exact ⟨_, rfl⟩

/-- Only a device without channels can break off what happens. -/
theorem exists_meetAll (hc : p.channels ≠ 0) (ms : List Moment) : ∃ q, p.meetAll ms = .ok q := by
  induction ms generalizing p with
  | nil => exact ⟨p, rfl⟩
  | cons m ms ih =>
    obtain ⟨next, hnext⟩ := exists_meet hc m
    rw [meetAll_cons hnext]
    refine ih ?_
    rwa [channels_meet hnext]

inductive Reaches (p : Player) : List Step → Player → Prop
  | start : Reaches p [] p
  | step {steps : List Step} {m : Moment} {q next : Player} (h : Reaches p steps q)
      (hm : q.meet m = .ok next) : Reaches p (steps ++ [⟨q, m, next⟩]) next

theorem exists_reaches {ms : List Moment} (h : p.meetAll ms = .ok q) :
    ∃ steps, p.Reaches steps q ∧ steps.map Step.moment = ms := by
  induction ms using List.reverseRecOn generalizing q with
  | nil =>
    cases h
    exact ⟨[], .start, rfl⟩
  | append_singleton ms m ih =>
    rw [meetAll, List.foldlM_append] at h
    obtain ⟨r, hr, hm⟩ := ok_of_bind h
    obtain ⟨steps, hsteps, rfl⟩ := ih hr
    have hlast : r.meet m = .ok q := (bind_pure (r.meet m)).symm.trans hm
    exact ⟨_, hsteps.step hlast, by simp⟩

theorem Reaches.split {steps before after : List Step} {s : Step} (h : p.Reaches steps q)
    (hs : steps = before ++ s :: after) :
    p.Reaches before s.before ∧ s.before.meet s.moment = .ok s.next := by
  induction h generalizing after with
  | start => simp at hs
  | @step steps m q next h hm ih =>
    cases after using List.reverseRecOn with
    | nil =>
      obtain ⟨rfl, hlast⟩ := List.append_inj' hs rfl
      obtain rfl := List.singleton_inj.mp hlast
      exact ⟨h, hm⟩
    | append_singleton after t =>
      rw [← List.cons_append, ← List.append_assoc] at hs
      exact ih (List.append_inj' hs rfl).1

theorem journal_meet {m : Moment} (h : p.meet m = .ok q) :
    q.journal = p.journal.noteAll (Step.records ⟨p, m, q⟩) := by
  match m with
  | .device (.callback _) =>
    obtain ⟨-, rfl⟩ := meet_callback h
    rfl
  | .device (.failure _) =>
    cases h
    rfl
  | .turn =>
    cases h
    rw [Step.records, Step.changes, ← changeRecords_eq]
    rfl
  | .input .other | .input (.key _ .hold) | .input (.key _ .release) =>
    cases h
    rfl
  | .input (.key k .press) =>
    have hpressed : Pressed p k q := Except.ok.inj h ▸ p.pressed k
    have hrecords : Step.records ⟨p, .input (.key k .press), q⟩ =
        ((p.console.command? k).filter fun c ↦ (p.playback.control.push? c).isNone).toList.map
          Step.dropRecord := rfl
    rw [hrecords]
    cases hpressed with
    | idle hk =>
      rw [hk]
      rfl
    | accepted hk hc => simp [hk, hc, Option.filter_some, Journal.noteAll]
    | dropped hk hc => simp [hk, hc, Option.filter_some, Journal.noteAll]

theorem Reaches.journal {steps : List Step} (h : p.Reaches steps q) :
    q.journal = p.journal.noteAll (steps.flatMap Step.records) := by
  induction h with
  | start => rfl
  | step h hm ih =>
    rw [List.flatMap_append, List.flatMap_singleton, Journal.noteAll_append, ← ih]
    exact journal_meet hm

end Player

end Polyphony
