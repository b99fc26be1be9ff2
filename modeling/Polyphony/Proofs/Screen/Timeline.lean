import Polyphony.Proofs.Number.Interval
import Polyphony.Proofs.Screen.Terminal
import Polyphony.Proofs.Settings.Playability
import Polyphony.Screen.Timeline

namespace Polyphony

open Text

@[simp] theorem Text.toList_alignLeft (width : ℕ) (s : String) :
    (alignLeft width s).toList = s.toList ++ List.replicate (width - s.length) ' ' := by
  simp [alignLeft]

/-- Text is filled up to a width, and never cut. -/
theorem Text.length_toList_alignLeft (width : ℕ) (s : String) :
    (alignLeft width s).toList.length = max width s.length := by
  rw [toList_alignLeft, List.length_append, List.length_replicate, String.length_toList]
  omega

theorem VoiceSettings.bpm_lt {s : VoiceSettings} (h : s.inRange .bpm) : s.bpm.toNat < 1000 := by
  by_contra hlarge
  -- the dial is read as a float, and from 512 on no rounding brings that back to 300
  have hlow : (2 : ℚ) ^ 9 ≤ s.bpm.toNat := by
    exact_mod_cast (show 2 ^ 9 ≤ s.bpm.toNat by omega)
  have hhigh : (s.bpm.toNat : ℚ) ≤ 2 ^ 32 := by exact_mod_cast s.bpm.toNat_lt.le
  have hx := (Floating.roundsTo_uint32 s.bpm).within (Floating.becomes_binary64 (by decide))
    (Floating.becomes_binary64 (by decide)) hlow hhigh
  have hle := hx.lower.trans (within_bpm h).upper
  norm_num at hle

namespace Screen.Timeline

/-- What stands in front of the axis in the row of a voice, before blanks are added. -/
def caption (index : ℕ) (s : VoiceSettings) : String := s!"{index + 1}:{Score.label s}"

def soundAt (v : VoiceSchedule) (time : Float) : Char :=
  if ∃ e ∈ v.entries.toList, e.startTime ≤ time ∧ time < e.finishTime then '▓' else '░'

def middle (step : Float) (column : ℕ) : Float := (Float.ofNat column + 0.5) * step

def charAt? (ls : List Line) (y x : ℕ) : Option Char := ls[y]?.bind fun l ↦ l.chars[x]?

theorem block_track (v : VoiceSchedule) (s : VoiceSettings) (step : Float) (column : ℕ) :
    block (Score.track v s) step column = soundAt v (middle step column) := by
  have hplayed : isPlayed (Score.track v s) (middle step column) ↔
      ∃ e ∈ v.entries.toList, e.startTime ≤ middle step column ∧
        middle step column < e.finishTime := by
    simp only [isPlayed, Score.track, List.any_map, List.any_eq_true, Function.comp_apply,
      Bool.and_eq_true, decide_eq_true_eq]
  simp only [block, soundAt, ← hplayed]
  rfl

theorem length_marks (step : Float) (column : ℕ) (next : Float) (n : ℕ) :
    (marks step column next n).length = n := by
  fun_induction marks step column next n <;> simp_all

theorem mem_marks {step : Float} {column : ℕ} {next : Float} {n : ℕ} {c : Char}
    (h : c ∈ marks step column next n) : c = '|' ∨ c = ' ' := by
  fun_induction marks step column next n with
  | case1 => cases h
  | case2 column next n hle ih =>
    obtain rfl | h := List.mem_cons.mp h
    · exact .inl rfl
    · exact ih h
  | case3 column next n hle ih =>
    obtain rfl | h := List.mem_cons.mp h
    · exact .inr rfl
    · exact ih h

theorem chars_markLine (s : Score) (axis : ℕ) : (markLine s axis).chars =
    List.replicate labelWidth ' ' ++ marks (columnTime s axis) 0 0.0 axis := by
  simp [markLine, Line.chars, margin]

theorem chars_trackLine (s : Score) (r : Reading) (axis : ℕ) (t : Track) (index : ℕ) :
    (trackLine s r axis t index).chars =
      (trackLabel index t).toList ++ blocks t (columnTime s axis) axis := by
  simp [trackLine, Line.chars]

theorem chars_playheadLine (s : Score) (r : Reading) (axis : ℕ) :
    (playheadLine s r axis).chars = List.replicate labelWidth ' ' ++
      (List.range axis).map fun c ↦
        if c = playhead r.time (columnTime s axis) axis then '▲' else ' ' := by
  simp [playheadLine, Line.chars, margin]

theorem toList_caption (index : ℕ) (s : VoiceSettings) : (caption index s).toList =
    (index + 1).repr.toList ++
      ':' :: (s.waveform.name.toList ++ ' ' :: s.bpm.toNat.repr.toList) := by
  have hcaption : caption index s =
      (index + 1).repr ++ ":" ++ (s.waveform.name ++ " " ++ s.bpm.toNat.repr) := by
    simp only [caption, Score.label, String.append_assoc]
    rfl
  rw [hcaption]
  simp

theorem printable_of_mem_repr {n : ℕ} {c : Char} (h : c ∈ n.repr.toList) : ' ' ≤ c ∧ c ≤ '~' := by
  rw [Nat.toList_repr] at h
  have hdigit := Nat.isDigit_of_mem_toDigits (by decide) (by decide) h
  simp only [Char.isDigit, ge_iff_le, Bool.and_eq_true, decide_eq_true_eq] at hdigit
  exact ⟨UInt32.le_trans (by decide) hdigit.1, UInt32.le_trans hdigit.2 (by decide)⟩

theorem printable_caption {index : ℕ} {s : VoiceSettings} {c : Char}
    (h : c ∈ (caption index s).toList) : ' ' ≤ c ∧ c ≤ '~' := by
  have hname : ∀ d ∈ s.waveform.name.toList, ' ' ≤ d ∧ d ≤ '~' := by
    cases s.waveform <;> simp [Waveform.name]
  rw [toList_caption] at h
  simp only [List.mem_append, List.mem_cons] at h
  obtain h | rfl | h | rfl | h := h
  · exact printable_of_mem_repr h
  · decide
  · exact hname c h
  · decide
  · exact printable_of_mem_repr h

theorem length_caption_le {index : ℕ} {s : VoiceSettings} (hindex : index < 9)
    (hbpm : s.inRange .bpm) : (caption index s).length ≤ labelWidth := by
  have hname : s.waveform.name.toList.length ≤ 8 := by cases s.waveform <;> decide
  have hindex' : (index + 1).repr.length ≤ 1 := Nat.repr_length _ 1 (by decide) (by omega)
  have hbpm' : s.bpm.toNat.repr.length ≤ 3 :=
    Nat.repr_length _ 3 (by decide) (VoiceSettings.bpm_lt hbpm)
  rw [← String.length_toList, toList_caption]
  simp only [List.length_append, List.length_cons, String.length_toList, labelWidth] at *
  omega

def CaptionsFit (settings : List VoiceSettings) : Prop :=
  ∀ (i : ℕ) (hi : i < settings.length), (caption i settings[i]).length ≤ labelWidth

/-- The column in which the axis of a voice begins. A caption that does not fit moves it. -/
def axisStart (voices : List VoiceSettings) (index : ℕ) : ℕ :=
  (voices[index]?).elim labelWidth fun s ↦ max labelWidth (caption index s).length

theorem axisStart_getElem {voices : List VoiceSettings} {i : ℕ} (hi : i < voices.length) :
    axisStart voices i = max labelWidth (caption i voices[i]).length := by
  simp [axisStart, hi]

section Rows

variable {score : Score} {r : Reading} {axis index column : ℕ} {v : VoiceSchedule}
  {s : VoiceSettings}

theorem chars_voiceLine : (trackLine score r axis (Score.track v s) index).chars =
    (alignLeft labelWidth (caption index s)).toList ++
      (List.range axis).map fun column ↦ soundAt v (middle (columnTime score axis) column) := by
  have hblocks : block (Score.track v s) (columnTime score axis) =
      fun column ↦ soundAt v (middle (columnTime score axis) column) :=
    funext fun column ↦ block_track v s _ column
  rw [chars_trackLine, blocks, hblocks]
  rfl

theorem getElem?_voiceLine (h : column < axis) :
    (trackLine score r axis (Score.track v s) index).chars[
        max labelWidth (caption index s).length + column]? =
      some (soundAt v (middle (columnTime score axis) column)) := by
  have hlength := length_toList_alignLeft labelWidth (caption index s)
  rw [chars_voiceLine, List.getElem?_append_right (hlength.trans_le (Nat.le_add_right ..)),
    hlength, Nat.add_sub_cancel_left]
  simp [h]

theorem soundAt_ne_printable {c : Char} {time : Float} (h : ' ' ≤ c ∧ c ≤ '~') :
    c ≠ soundAt v time := by
  rintro rfl
  rw [soundAt] at h
  split at h <;> revert h <;> decide

/-- A caption that does not fit is still there in the first column of the axis. -/
theorem length_caption_le_of_first
    (hfirst : (trackLine score r axis (Score.track v s) index).chars[labelWidth]? =
      some (soundAt v (middle (columnTime score axis) 0))) :
    (caption index s).length ≤ labelWidth := by
  by_contra hlong
  have hlong' : labelWidth < (caption index s).toList.length := by
    rw [String.length_toList]
    omega
  rw [chars_voiceLine, toList_alignLeft, List.append_assoc, List.getElem?_append_left hlong',
    List.getElem?_eq_getElem hlong', Option.some_inj] at hfirst
  exact soundAt_ne_printable (printable_caption (List.getElem_mem hlong')) hfirst

theorem mark_at (h : column < axis) :
    (markLine score axis).chars[labelWidth + column]? = some '|' ∨
      (markLine score axis).chars[labelWidth + column]? = some ' ' := by
  have hcolumn : column < (marks (columnTime score axis) 0 0.0 axis).length := by
    rwa [length_marks]
  have hchar : (markLine score axis).chars[labelWidth + column]? =
      some (marks (columnTime score axis) 0 0.0 axis)[column] := by
    rw [chars_markLine, List.getElem?_append_right (by simp)]
    simp [hcolumn]
  obtain hmark | hmark := mem_marks (List.getElem_mem hcolumn)
  · exact .inl (by rw [hchar, hmark])
  · exact .inr (by rw [hchar, hmark])

theorem playhead_lt (time step : Float) (h : 0 < axis) : playhead time step axis < axis := by
  rw [playhead]
  omega

theorem playhead_iff (h : 0 < axis) (x : ℕ) :
    (playheadLine score r axis).chars[x]? = some '▲' ↔
      x = labelWidth + playhead r.time (columnTime score axis) axis := by
  have hhead := playhead_lt r.time (columnTime score axis) h
  rw [chars_playheadLine, List.getElem?_append]
  split
  case isTrue hx =>
    rw [List.length_replicate] at hx
    simp [List.getElem?_replicate]
    omega
  case isFalse hx =>
    rw [List.length_replicate] at hx ⊢
    simp [List.getElem?_eq_some_iff]
    omega

end Rows

/-- Lines of which the first marks seconds, the last has one playhead, and each of the others shows
when a voice sounds. The axis of the voices begins in the columns `start`. -/
structure LinedUp (voices : List VoiceSchedule) (start : ℕ → ℕ) (step : Float) (axis : ℕ)
    (ls : List Line) : Prop where
  count : ls.length = voices.length + 2
  marks : ∀ column < axis, charAt? ls 0 (labelWidth + column) = some '|' ∨
    charAt? ls 0 (labelWidth + column) = some ' '
  sounds : ∀ (i : ℕ) (hi : i < voices.length), ∀ column < axis,
    charAt? ls (i + 1) (start i + column) = some (soundAt voices[i] (middle step column))
  playhead : ∃ p < axis, ∀ x, charAt? ls (voices.length + 1) x = some '▲' ↔ x = labelWidth + p

def symbolAt? (rows : List Row) (y x : ℕ) : Option String :=
  (rows[y]?.bind fun row ↦ row[x]?).map Cell.symbol

section Lines

variable {session : Session} {settings : List VoiceSettings} {rate : Float} {r : Reading}
  {width height i y x : ℕ} {l : Line}

theorem length_tracks (h : settings.length = session.voices.length) :
    (Score.ofSession session settings rate).tracks.length = session.voices.length := by
  simp [Score.ofSession, h]

theorem length_lines {score : Score} :
    (lines score r width).length = score.tracks.length + 2 := by
  simp [lines]

theorem lines_voice (hi : i < session.voices.length) (hi' : i < settings.length) :
    (lines (Score.ofSession session settings rate) r width)[i + 1]? =
      some (trackLine (Score.ofSession session settings rate) r (axisWidth width)
        (Score.track session.voices[i] settings[i]) i) := by
  simp [lines, Score.ofSession, List.getElem?_append_left, hi, hi']

theorem lines_last {score : Score} : (lines score r width)[score.tracks.length + 1]? =
    some (playheadLine score r (axisWidth width)) := by
  simp [lines]

theorem axisWidth_pos (hwide : labelWidth + 10 ≤ width) : 0 < axisWidth width := by
  rw [axisWidth]
  omega

theorem linedUp_lines (h : settings.length = session.voices.length)
    (hwide : labelWidth + 10 ≤ width) :
    let score := Score.ofSession session settings rate
    LinedUp session.voices (axisStart settings) (columnTime score (axisWidth width))
      (axisWidth width) (lines score r width) where
  count := by rw [length_lines, length_tracks h]
  marks _ hcolumn := mark_at hcolumn
  sounds i hi column hcolumn := by
    have hi' : i < settings.length := h ▸ hi
    rw [charAt?, lines_voice hi hi', axisStart_getElem hi']
    exact getElem?_voiceLine hcolumn
  playhead := by
    let score := Score.ofSession session settings rate
    refine ⟨Timeline.playhead r.time (columnTime score (axisWidth width)) (axisWidth width),
      playhead_lt _ _ (axisWidth_pos hwide), fun x ↦ ?_⟩
    have htracks : score.tracks.length = session.voices.length := length_tracks h
    rw [charAt?, ← htracks, lines_last]
    exact playhead_iff (axisWidth_pos hwide) x

theorem linedUp_iff (h : settings.length = session.voices.length)
    (hwide : labelWidth + 10 ≤ width) :
    let score := Score.ofSession session settings rate
    LinedUp session.voices (fun _ ↦ labelWidth) (columnTime score (axisWidth width))
        (axisWidth width) (lines score r width) ↔ CaptionsFit settings := by
  intro score
  have hlines : LinedUp session.voices (axisStart settings) (columnTime score (axisWidth width))
      (axisWidth width) (lines score r width) := linedUp_lines h hwide
  constructor
  · intro hup i hi
    have hi' : i < session.voices.length := h ▸ hi
    have hfirst := hup.sounds i hi' 0 (axisWidth_pos hwide)
    rw [charAt?, lines_voice hi' hi] at hfirst
    exact length_caption_le_of_first hfirst
  · intro hfit
    refine ⟨hlines.count, hlines.marks, fun i hi column hcolumn ↦ ?_, hlines.playhead⟩
    have hstart : axisStart settings i = labelWidth := by
      rw [axisStart_getElem (h ▸ hi), Nat.max_eq_left (hfit i (h ▸ hi))]
    rw [← hstart]
    exact hlines.sounds i hi column hcolumn

theorem mem_lines (hl : l ∈ lines (Score.ofSession session settings rate) r width) :
    let score := Score.ofSession session settings rate
    l = markLine score (axisWidth width) ∨ l = playheadLine score r (axisWidth width) ∨
      ∃ (v : VoiceSchedule) (i : ℕ) (hi : i < settings.length),
        l = trackLine score r (axisWidth width) (Score.track v settings[i]) i := by
  intro score
  simp only [lines, List.cons_append, List.mem_cons, List.mem_append, List.mem_map,
    List.not_mem_nil, or_false] at hl
  obtain rfl | ⟨⟨t, i⟩, ht, rfl⟩ | rfl := hl
  · exact .inl rfl
  · rw [List.mk_mem_zipIdx_iff_getElem?, Score.ofSession, List.getElem?_zipWith_eq_some] at ht
    obtain ⟨v, s, -, hs, rfl⟩ := ht
    obtain ⟨hi, rfl⟩ := List.getElem?_eq_some_iff.mp hs
    exact .inr (.inr ⟨v, i, hi, rfl⟩)
  · exact .inr (.inl rfl)

theorem isPlain_lines (hl : l ∈ lines (Score.ofSession session settings rate) r width) :
    ∀ c ∈ l.chars, IsPlain c := by
  have hblank : ∀ n, ∀ c ∈ List.replicate n ' ', IsPlain c := by
    intro n c hc
    obtain rfl := List.eq_of_mem_replicate hc
    exact isPlain_of_printable (by decide)
  intro c hc
  obtain rfl | rfl | ⟨v, i, hi, rfl⟩ := mem_lines hl
  · rw [chars_markLine, List.mem_append] at hc
    obtain hc | hc := hc
    · exact hblank _ c hc
    · obtain rfl | rfl := mem_marks hc <;> exact isPlain_of_printable (by decide)
  · rw [chars_playheadLine, List.mem_append, List.mem_map] at hc
    obtain hc | ⟨column, -, rfl⟩ := hc
    · exact hblank _ c hc
    · split
      · exact isPlain_of_drawn (by decide)
      · exact isPlain_of_printable (by decide)
  · rw [chars_voiceLine, toList_alignLeft, List.mem_append, List.mem_append, List.mem_map] at hc
    obtain (hc | hc) | ⟨column, -, rfl⟩ := hc
    · exact isPlain_of_printable (printable_caption hc)
    · exact hblank _ c hc
    · rw [soundAt]
      split <;> exact isPlain_of_drawn (by decide)

theorem length_line (hfit : CaptionsFit settings)
    (hl : l ∈ lines (Score.ofSession session settings rate) r width) :
    l.chars.length = labelWidth + axisWidth width := by
  obtain rfl | rfl | ⟨v, i, hi, rfl⟩ := mem_lines hl
  · simp [chars_markLine, length_marks]
  · simp [chars_playheadLine]
  · rw [chars_voiceLine, List.length_append, length_toList_alignLeft, Nat.max_eq_left (hfit i hi)]
    simp

def drawn (score : Score) (r : Reading) (width height : ℕ) : List Row :=
  ((lines score r width).take height).map (Row.written .plain width) ++
    List.replicate (height - (lines score r width).length) (Row.blank .plain width)

theorem fits_line (hwide : labelWidth + 10 ≤ width) (hmost : width < UInt16.size)
    (hfit : width + 1 < UInt16.size ∨ CaptionsFit settings)
    (hl : l ∈ lines (Score.ofSession session settings rate) r width) :
    l.chars.length < UInt16.size ∨ width + 1 < UInt16.size := by
  obtain hnarrow | hfit := hfit
  · exact .inr hnarrow
  · have hl' := length_line hfit hl
    rw [axisWidth] at hl'
    exact .inl (by omega)

theorem draw_eq_drawn (hwide : labelWidth + 10 ≤ width) (hmost : width < UInt16.size)
    (hhigh : 2 ≤ height) (hfit : width + 1 < UInt16.size ∨ CaptionsFit settings) :
    let score := Score.ofSession session settings rate
    draw score r width height = .ok (drawn score r width height) := by
  intro score
  have hroom : ¬ (height < 2 || width < labelWidth + 10) := by
    simp only [Bool.or_eq_true, decide_eq_true_eq]
    omega
  rw [draw, if_neg hroom]
  exact pane_of_plain (fun _ hl ↦ isPlain_lines hl) fun _ hl ↦ fits_line hwide hmost hfit hl

theorem fills_drawn (hwide : labelWidth + 10 ≤ width) (hmost : width < UInt16.size)
    (hfit : width + 1 < UInt16.size ∨ CaptionsFit settings) :
    Fills width height (drawn (Score.ofSession session settings rate) r width height) :=
  fills_of_plain (fun _ hl ↦ isPlain_lines hl) fun _ hl ↦ fits_line hwide hmost hfit hl

theorem symbolAt?_drawn {score : Score} (hy : y < height) (hline : y < (lines score r width).length)
    (hx : x < width) : symbolAt? (drawn score r width height) y x =
      some (String.ofList [(charAt? (lines score r width) y x).getD ' ']) := by
  have hrow : y < ((lines score r width).take height).length := by
    rw [List.length_take]
    omega
  rw [symbolAt?, charAt?, drawn, List.getElem?_append_left (by rwa [List.length_map]),
    List.getElem?_map, List.getElem?_take_of_lt hy, List.getElem?_eq_getElem hline]
  exact Row.symbol_written .plain _ hx

theorem screens_of_readings (hwide : labelWidth + 10 ≤ width) (hmost : width < UInt16.size)
    (hhigh : 2 ≤ height) (hfit : width + 1 < UInt16.size ∨ CaptionsFit settings)
    (hcells : width * height ≤ UInt16.size) (rs : List Reading) :
    let score := Score.ofSession session settings rate
    ∃ drawings, (rs.mapM fun r ↦ draw score r width height) = .ok drawings ∧
      (Terminal.blank width height).screens drawings = drawings := by
  intro score
  refine ⟨rs.map fun r ↦ drawn score r width height,
    mapM_of_forall_ok fun r _ ↦ draw_eq_drawn hwide hmost hhigh hfit, ?_⟩
  refine (Terminal.shows_blank width height).screens hcells fun rows hrows ↦ ?_
  obtain ⟨r, -, rfl⟩ := List.mem_map.mp hrows
  exact fills_drawn hwide hmost hfit

end Lines

section Sessions

variable [Elementary]

theorem length_voices_of_session {c : Composition} {s : Session} (h : c.session = .ok s) :
    c.voices.length = s.voices.length := by
  have hvoices := Composition.comes_session c
  rw [h] at hvoices
  obtain ⟨hvoices⟩ | _ := hvoices
  exact hvoices.length_eq

/-- The timeline of a session shows what sounds in the middle of each column of the axis. The axis
is in the same columns of all rows just where each caption fits in front of it, and the captions of
nine voices always do. A terminal of its size shows it as it is, one reading after the other. -/
theorem voices_line_up {c : Composition} {s : Session} (h : c.session = .ok s) (rate : Float)
    (r : Reading) {width height : ℕ} (hwide : labelWidth + 10 ≤ width)
    (hmost : width < UInt16.size) (hhigh : 2 ≤ height) :
    let score := Score.ofSession s c.voices rate
    let axis := axisWidth width
    let ls := lines score r width
    s.voices.length = c.voices.length ∧
      LinedUp s.voices (axisStart c.voices) (columnTime score axis) axis ls ∧
      (LinedUp s.voices (fun _ ↦ labelWidth) (columnTime score axis) axis ls ↔
        CaptionsFit c.voices) ∧
      (∀ (i : ℕ) (hi : i < c.voices.length), i < 9 →
        (caption i c.voices[i]).length ≤ labelWidth) ∧
      (width + 1 < UInt16.size ∨ CaptionsFit c.voices →
        (∃ rows, draw score r width height = .ok rows ∧ rows.length = height ∧
          ∀ y x, y < height → y < ls.length → x < width →
            symbolAt? rows y x = some (String.ofList [(charAt? ls y x).getD ' '])) ∧
        (width * height ≤ UInt16.size → ∀ rs : List Reading, ∃ drawings,
          (rs.mapM fun r ↦ draw score r width height) = .ok drawings ∧
            (Terminal.blank width height).screens drawings = drawings)) := by
  have hlength := length_voices_of_session h
  have hevaluate := Composition.isPlayable_iff_evaluate.mp
    ((Composition.comes_session c).isOk_iff.mp ⟨s, h⟩)
  refine ⟨hlength.symm, linedUp_lines hlength hwide, linedUp_iff hlength hwide, ?_, ?_⟩
  · intro i hi hnine
    obtain ⟨schedule, hschedule⟩ := hevaluate c.voices[i] (List.getElem_mem hi)
    exact length_caption_le hnine ((VoiceSettings.entries_of_evaluate hschedule).1 .bpm)
  · intro hfit
    refine ⟨⟨_, draw_eq_drawn hwide hmost hhigh hfit, (fills_drawn hwide hmost hfit).count, ?_⟩,
      fun hcells rs ↦ screens_of_readings hwide hmost hhigh hfit hcells rs⟩
    exact fun y x hy hline hx ↦ symbolAt?_drawn hy hline hx

end Sessions

def bright : VoiceSettings := { melody := "C4/4", waveform := .sawtooth }

def crowd : Composition := ⟨List.replicate 10 bright⟩

theorem session_crowd : ∃ s, crowd.session = .ok s := by
  refine (Composition.comes_session crowd).isOk_iff.mpr (Composition.isPlayable_iff.mpr ?_)
  intro s hs
  obtain rfl := List.eq_of_mem_replicate hs
  have hdials : ∀ d, bright.inRange d := fun d ↦ by cases d <;> decide
  have hparse : WrittenNote.parseAll "C4/4" = .ok [⟨"C4/4", some ⟨.c, 4⟩, ⟨1, 4⟩⟩] := by cbv
  rw [VoiceSettings.validate_of_parseAll hdials hparse]
  rfl

theorem crowd_on_screen : ∃ s, crowd.session = .ok s ∧ labelWidth + 10 ≤ 24 ∧ 24 < UInt16.size ∧
    2 ≤ 14 ∧ 24 * 14 ≤ UInt16.size ∧
    let score := Score.ofSession s crowd.voices 100.0
    let ls := lines score .start 24
    LinedUp s.voices (axisStart crowd.voices) (columnTime score (axisWidth 24)) (axisWidth 24) ls ∧
      (∃ rows, draw score .start 24 14 = .ok rows ∧ rows.length = 14 ∧
        ∀ y x, y < 14 → y < ls.length → x < 24 →
          symbolAt? rows y x = some (String.ofList [(charAt? ls y x).getD ' '])) ∧
      ∀ rs : List Reading, ∃ drawings, (rs.mapM fun r ↦ draw score r 24 14) = .ok drawings ∧
        (Terminal.blank 24 14).screens drawings = drawings := by
  obtain ⟨s, hs⟩ := session_crowd
  have hwide : labelWidth + 10 ≤ 24 := by decide
  have hmost : 24 < UInt16.size := by decide
  have hhigh : 2 ≤ 14 := by decide
  have hcells : 24 * 14 ≤ UInt16.size := by decide
  obtain ⟨-, hlines, -, -, hdraw⟩ := voices_line_up hs 100.0 .start hwide hmost hhigh
  obtain ⟨hrows, hscreens⟩ := hdraw (.inl (by decide))
  exact ⟨s, hs, hwide, hmost, hhigh, hcells, hlines, hrows, hscreens hcells⟩

/-- The tenth voice has a caption of 15 characters, the last of which stands where its axis should
begin. -/
theorem crowd_out_of_line : ∃ s, crowd.session = .ok s ∧
    let score := Score.ofSession s crowd.voices 100.0
    let ls := lines score .start 24
    charAt? ls 10 14 = some '0' ∧
      ¬ LinedUp s.voices (fun _ ↦ labelWidth) (columnTime score (axisWidth 24)) (axisWidth 24)
        ls := by
  obtain ⟨s, hs⟩ := session_crowd
  have hlength := length_voices_of_session hs
  have hcaption : caption 9 crowd.voices[9] = "10:sawtooth 100" := rfl
  refine ⟨s, hs, ?_, fun hup ↦ ?_⟩
  · rw [charAt?, lines_voice (hlength ▸ by decide) (by decide), Option.bind_some, chars_voiceLine,
      hcaption, List.getElem?_append_left (by decide)]
    decide
  · have hfit := (linedUp_iff hlength (by decide)).mp hup 9 (by decide)
    rw [hcaption] at hfit
    exact absurd hfit (by decide)

end Screen.Timeline

end Polyphony
