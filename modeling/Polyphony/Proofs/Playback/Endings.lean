import Polyphony.Proofs.Playback.Silence

namespace Polyphony

namespace Turn

def quits (t : Turn) : Bool :=
  match t.input with
  | .ok (some (.key k .press)) => k = .char 'q' || k = .char 'Q' || k = .escape
  | _ => false

def pressesOnly (t : Turn) : Turn :=
  match t.input with
  | .ok (some (.key _ .press)) | .ok none | .error _ => t
  | .ok (some _) => { t with input := .ok none }

theorem drawFault_pressesOnly (t : Turn) : t.pressesOnly.drawFault = t.drawFault := by
  rw [pressesOnly]
  split <;> rfl

def asked (first : Bool) (ts : List Turn) : ℕ → Bool
  | 0 => first
  | n + 1 => ts[n]?.any quits

theorem asked_cons (first : Bool) (t : Turn) (ts : List Turn) (n : ℕ) :
    asked first (t :: ts) (n + 1) = asked t.quits ts n := by
  cases n with
  | zero => rfl
  | succ n => rfl

end Turn

namespace Player

variable {p q : Player} {t : Turn} {ts : List Turn} {es : List DeviceEvent}
  {filled : List (Array Float32)} {finish : Float} {first : Bool}

theorem console_handle (p : Player) {t : Turn} {i? : Option Input} (h : t.input = .ok i?) :
    ((i?.map p.handle).getD p).console.monitor = p.console.monitor ∧
      ((i?.map p.handle).getD p).console.exit =
        if t.quits then some .stopped else p.console.exit := by
  rw [Turn.quits, h]
  match i? with
  | none | some .other | some (.key _ .hold) | some (.key _ .release) => exact ⟨rfl, rfl⟩
  | some (.key k .press) =>
    have hconsole : (p.press k).console = p.console.press k := rfl
    rw [Option.map_some, Option.getD_some, handle, hconsole, Console.press, Key.isQuit]
    split
    · exact ⟨rfl, rfl⟩
    · exact ⟨rfl, rfl⟩

theorem reading_refresh (p : Player) : p.refresh.console.reading =
    p.playback.readings.items.getLastD p.console.reading := rfl

/-- A player that can still play on: its end has at most been asked for in the turn before. -/
structure Open (finish : Float) (first : Bool) (p : Player) : Prop where
  finishTime : p.console.monitor.finishTime = finish
  finished : p.console.monitor.finished = false
  exit : p.console.exit = if first then some .stopped else none

theorem Open.exit_refresh (h : Open finish first p) : p.refresh.console.exit =
    if finish < p.refresh.console.reading.time then some .finished
    else if first then some .stopped else none := by
  have hexit : p.refresh.console.exit =
      if p.console.monitor.fires p.refresh.console.reading.time then some .finished
      else p.console.exit := rfl
  rw [hexit, h.exit, FinishMonitor.fires, h.finished, h.finishTime]
  simp

theorem Open.refresh (h : Open finish first p)
    (hpast : ¬ finish < p.refresh.console.reading.time) : Open finish first p.refresh := by
  refine ⟨h.finishTime, ?_, ?_⟩
  · have hfinished : p.refresh.console.monitor.finished = (p.console.monitor.finished ||
        p.console.monitor.fires p.refresh.console.reading.time) := rfl
    rw [hfinished, FinishMonitor.fires, h.finished, h.finishTime]
    simp [hpast]
  · rw [h.exit_refresh, if_neg hpast]

section Turns

variable [Elementary]

theorem console_serve (h : p.serve es = .ok (filled, q)) : q.console = p.console := by
  induction es generalizing p filled with
  | nil =>
    cases h
    rfl
  | cons e es ih =>
    cases e with
    | failure text => exact ih (p := p.note _) h
    | callback buffer =>
      obtain ⟨-, more, hrest, -⟩ := ok_of_serve_callback h
      exact ih (p := p.called _) hrest

theorem console_playTurn (h : p.playTurn t = .ok (filled, q)) :
    q.console.monitor = p.console.monitor ∧
      q.console.exit = if t.quits then some .stopped else p.console.exit := by
  obtain ⟨⟨_, p₁⟩, hwaiting, hthen⟩ := ok_of_bind h
  cases hinput : t.input with
  | error _ =>
    simp only [hinput] at hthen
    cases hthen
  | ok i? =>
    simp only [hinput] at hthen
    obtain ⟨⟨_, p₂⟩, hhandling, heq⟩ := ok_of_bind hthen
    cases heq
    rw [console_serve hhandling, ← console_serve hwaiting]
    exact console_handle p₁ hinput

theorem Open.playTurn (h : Open finish false p) (hplay : p.playTurn t = .ok (filled, q)) :
    Open finish t.quits q := by
  obtain ⟨hmonitor, hexit⟩ := console_playTurn hplay
  refine ⟨?_, ?_, ?_⟩
  · rw [hmonitor, h.finishTime]
  · rw [hmonitor, h.finished]
  · rw [hexit, h.exit]
    rfl

/-- The player with which a turn begins, the readings taken in. There is one as long as the turns
in front of it can be played through. -/
def begins (p : Player) : List Turn → ℕ → Option Player
  | _, 0 => some p.refresh
  | [], _ + 1 => none
  | t :: ts, n + 1 =>
    match p.refresh.playTurn t with
    | .error _ => none
    | .ok (_, next) => begins next ts n

inductive Ends (finish : Float) (asked : Bool) (q : Player) : Option Turn → Ending → Prop
  | finished {t? : Option Turn} (h : finish < q.console.reading.time) :
      Ends finish asked q t? (.exit .finished)
  | stopped {t? : Option Turn} (h : ¬ finish < q.console.reading.time) (hasked : asked) :
      Ends finish asked q t? (.exit .stopped)
  | undrawn {t : Turn} {text : String} (h : ¬ finish < q.console.reading.time) (hasked : ¬ asked)
      (ht : t.drawFault = some text) : Ends finish asked q (some t) (.fault (.terminal text))
  | overflow {t? : Option Turn} {f : ArithmeticFault} (h : ¬ finish < q.console.reading.time)
      (hasked : ¬ asked) (ht : t?.bind Turn.drawFault = none) (hq : q.drawing = .error f) :
      Ends finish asked q t? (.fault (.arithmetic f))
  | broken {t : Turn} {f : PlayFault} {failed : Player} (h : ¬ finish < q.console.reading.time)
      (hasked : ¬ asked) (ht : q.playTurn t = .error (f, failed)) :
      Ends finish asked q (some t) (.fault f)
  | ongoing (h : ¬ finish < q.console.reading.time) (hasked : ¬ asked) :
      Ends finish asked q none .ongoing

/-- A run ends in the first turn in which it has a reason to. -/
structure Concludes (finish : Float) (first : Bool) (p : Player) (ts : List Turn)
    (r : Performance) : Prop where
  earlier : ∀ n < r.turns.length, ∃ q, p.begins ts n = some q ∧
    ¬ finish < q.console.reading.time ∧ ¬ Turn.asked first ts n
  last : ∃ q, p.begins ts r.turns.length = some q ∧
    Ends finish (Turn.asked first ts r.turns.length) q ts[r.turns.length]? r.ending

theorem concludes_of_ends {r : Performance} (hr : r.turns = [])
    (h : Ends finish first p.refresh ts[0]? r.ending) : Concludes finish first p ts r := by
  refine ⟨?_, p.refresh, ?_, ?_⟩
  · simp [hr]
  · rw [hr, List.length_nil, begins]
  · rw [hr]
    exact h

theorem run_of_exit {e : Exit} (h : p.refresh.console.exit = some e) (ts : List Turn) :
    p.run ts = ⟨[], .exit e, none, p.refresh.close⟩ := by
  cases ts with
  | nil => rw [run, h]
  | cons t ts => rw [run, h]

theorem Open.concludes_of_over (h : Open finish first p)
    (hover : finish < p.refresh.console.reading.time ∨ first) (ts : List Turn) :
    Concludes finish first p ts (p.run ts) := by
  have hexit := h.exit_refresh
  by_cases hpast : finish < p.refresh.console.reading.time
  · rw [if_pos hpast] at hexit
    rw [run_of_exit hexit]
    exact concludes_of_ends rfl (.finished hpast)
  · have hfirst := hover.resolve_left hpast
    rw [if_neg hpast, if_pos hfirst] at hexit
    rw [run_of_exit hexit]
    exact concludes_of_ends rfl (.stopped hpast hfirst)

theorem Concludes.cons {r : Performance} {played : PlayedTurn} {next : Player}
    (h : Concludes finish t.quits next ts r) (hplay : p.refresh.playTurn t = .ok (filled, next))
    (hpast : ¬ finish < p.refresh.console.reading.time) (hfirst : ¬ first) :
    Concludes finish first p (t :: ts) { r with turns := played :: r.turns } := by
  have hbegins (n : ℕ) : p.begins (t :: ts) (n + 1) = next.begins ts n := by
    rw [begins, hplay]
  refine ⟨fun n hn ↦ ?_, ?_⟩
  · cases n with
    | zero => exact ⟨p.refresh, rfl, hpast, hfirst⟩
    | succ n =>
      rw [hbegins, Turn.asked_cons]
      exact h.earlier n (Nat.lt_of_succ_lt_succ hn)
  · rw [List.length_cons, hbegins, Turn.asked_cons, List.getElem?_cons_succ]
    exact h.last

theorem concludes_run (h : Open finish first p) (ts : List Turn) :
    Concludes finish first p ts (p.run ts) := by
  -- By induction on the turns: one that is played through leaves the player open, and the end asked
  -- for if a quitting key was pressed in it.
  induction ts generalizing p first with
  | nil =>
    by_cases hover : finish < p.refresh.console.reading.time ∨ first
    · exact h.concludes_of_over hover []
    · obtain ⟨hpast, hfirst⟩ := not_or.mp hover
      have hexit := h.exit_refresh
      rw [if_neg hpast, if_neg hfirst] at hexit
      rw [run]
      simp only [hexit]
      cases hdrawing : p.refresh.drawing with
      | error f => exact concludes_of_ends rfl (.overflow hpast hfirst rfl hdrawing)
      | ok drawing => exact concludes_of_ends rfl (.ongoing hpast hfirst)
  | cons t ts ih =>
    by_cases hover : finish < p.refresh.console.reading.time ∨ first
    · exact h.concludes_of_over hover (t :: ts)
    · obtain ⟨hpast, hfirst⟩ := not_or.mp hover
      have hexit := h.exit_refresh
      rw [if_neg hpast, if_neg hfirst] at hexit
      rw [run]
      simp only [hexit]
      cases hdraw : t.drawFault with
      | some text => exact concludes_of_ends rfl (.undrawn hpast hfirst hdraw)
      | none =>
        cases hdrawing : p.refresh.drawing with
        | error f => exact concludes_of_ends rfl (.overflow hpast hfirst hdraw hdrawing)
        | ok drawing =>
          cases hplay : p.refresh.playTurn t with
          | error e => exact concludes_of_ends rfl (.broken hpast hfirst hplay)
          | ok played =>
            obtain ⟨filled, next⟩ := played
            obtain rfl : first = false := by simpa using hfirst
            have hopen := h.refresh hpast
            exact (ih (hopen.playTurn hplay)).cons hplay hpast hfirst

theorem run_of_quits (ht : t.quits) (before after : List Turn) :
    p.run (before ++ t :: after) = p.run (before ++ [t]) := by
  induction before generalizing p with
  | nil =>
    rw [List.nil_append, List.nil_append, run, run]
    cases hplay : p.refresh.playTurn t with
    | error e => rfl
    | ok played =>
      obtain ⟨filled, next⟩ := played
      have hexit := (console_playTurn hplay).2
      rw [if_pos ht] at hexit
      have hover : ∃ e, next.refresh.console.exit = some e := by
        have hcheck : next.refresh.console.exit =
            if next.console.monitor.fires next.refresh.console.reading.time then some .finished
            else next.console.exit := rfl
        rw [hcheck, hexit]
        split
        · exact ⟨_, rfl⟩
        · exact ⟨_, rfl⟩
      obtain ⟨e, he⟩ := hover
      simp only [run_of_exit he]
  | cons u before ih =>
    rw [List.cons_append, List.cons_append, run, run]
    cases p.refresh.playTurn u with
    | error e => rfl
    | ok played => simp only [ih]

theorem playTurn_pressesOnly (p : Player) (t : Turn) : p.playTurn t.pressesOnly = p.playTurn t := by
  obtain ⟨drawFault, waiting, input, handling⟩ := t
  match input with
  | .error _ | .ok none | .ok (some (.key _ .press)) | .ok (some .other)
  | .ok (some (.key _ .hold)) | .ok (some (.key _ .release)) => rfl

theorem run_pressesOnly (p : Player) (ts : List Turn) :
    p.run (ts.map Turn.pressesOnly) = p.run ts := by
  induction ts generalizing p with
  | nil => rfl
  | cons t ts ih =>
    rw [List.map_cons, run, run, Turn.drawFault_pressesOnly, playTurn_pressesOnly]
    cases p.refresh.playTurn t with
    | error e => rfl
    | ok played => simp only [ih]

/-- A run ends in the first turn in which the finish has been passed or the end been asked for, if
nothing fails before, and whatever has happened by then, the device gets only silence after it. -/
theorem run_ends_quietly (s : Session) (settings : List VoiceSettings) (rate : UInt32)
    (channels : ℕ) (j : Journal) (d : Display) (ts : List Turn) :
    let p := start s settings rate channels j d
    Concludes s.finishTime false p ts (p.run ts) ∧
      (∀ q : Player, q.refresh.console.reading =
        q.playback.readings.items.getLastD q.console.reading) ∧
      (∀ before t after, ts = before ++ t :: after → t.quits →
        p.run ts = p.run (before ++ [t])) ∧
      p.run (ts.map Turn.pressesOnly) = p.run ts ∧
      ((p.run ts).ending ≠ .ongoing → (p.run ts).player.Quiet) ∧
      ∀ ms q, p.meetAll ms = .ok q → q.close.Quiet := by
  intro p
  have hopen : Open s.finishTime false p := ⟨rfl, rfl, rfl⟩
  refine ⟨concludes_run hopen ts, reading_refresh, ?_, run_pressesOnly p ts, ?_, ?_⟩
  · intro before t after hts ht
    rw [hts]
    exact run_of_quits ht before after
  · intro hending
    obtain ⟨q, hq, hplayer⟩ := arrives_run hending
    rw [hplayer]
    exact hq.quiet_close rfl
  · intro ms q hq
    exact Arrives.quiet_close ⟨ms, hq⟩ rfl

end Turns

end Player

end Polyphony
