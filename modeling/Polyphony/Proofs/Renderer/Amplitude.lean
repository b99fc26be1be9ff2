import Polyphony.Proofs.Renderer.Continuity
import Polyphony.Proofs.Renderer.Sounding
import Polyphony.Proofs.Renderer.Waveform
import Polyphony.Proofs.Schedule.Level
import Polyphony.Proofs.Settings.Playability

namespace Polyphony

open Floating

theorem not_isNaN_of_within {x : Float} {l u : ℚ} (h : Within l u x) : ¬ x.isNaN := by
  rw [isNaN_iff, not_not]
  exact h.finite.isNumber

structure Entry.Sound (e : Entry) : Prop where
  placed : e.Placed
  bounded : e.envelope.Bounded

theorem Entry.Sound.timed {e : Entry} (h : e.Sound) : e.Timed :=
  ⟨not_isNaN_of_within h.placed.start, not_isNaN_of_within (h.bounded e.envelope.finish
    (by simp [Envelope.toList])).1⟩

def Session.Sound (s : Session) : Prop :=
  ∀ v ∈ s.voices, ∀ e ∈ v.entries, e.Sound

theorem Session.Sound.timed {s : Session} (h : s.Sound) : s.Timed :=
  fun v hv e he ↦ (h v hv e he).timed

namespace Renderer

variable {e : Entry} {rate p t : Float} {k : ℕ}

/-- The phase of an entry is lost before sample `k`: a step of it was out of the numbers. The square
goes on without one. -/
structure Lost (rate : Float) (e : Entry) (k : ℕ) : Prop where
  waveform : e.waveform ≠ .square
  step : ¬ (e.frequency * (1.0 / rate)).isFinite
  moved : soundings rate e k ≠ 0

theorem within_phaseBefore (h : Floating.Finite (e.frequency * (1.0 / rate))) (k : ℕ) :
    Within (-1) 1 (phaseBefore rate e k) := by
  have hstep {p : Float} (hp : Within (-1) 1 p) : Within (-1) 1 (nextPhase e (1.0 / rate) p) :=
    within_fraction (finite_add h hp)
  rw [phaseBefore]
  -- on the number of samples that the entry was heard in
  induction soundings rate e k with
  | zero => exact within_zero.mono (by norm_num) (by norm_num)
  | succ n ih =>
    rw [Function.iterate_succ_apply']
    exact hstep ih

theorem finite_phaseBefore (h : ¬ Lost rate e k) :
    e.waveform = .square ∨ Floating.Finite (phaseBefore rate e k) := by
  by_contra hnot
  rw [not_or] at hnot
  refine h ⟨hnot.1, fun hfinite ↦ hnot.2 ?_, fun hzero ↦ hnot.2 ?_⟩
  · exact (within_phaseBefore (isFinite_iff.mp hfinite) k).finite
  · rw [phaseBefore, hzero]
    exact within_zero.finite

theorem Lost.not_finite (h : Lost rate e k) : ¬ Floating.Finite (phaseBefore rate e k) := by
  obtain ⟨n, hn⟩ := Nat.exists_eq_succ_of_ne_zero h.moved
  rw [phaseBefore, hn, Function.iterate_succ_apply']
  intro hfinite
  exact not_isNumber_fraction
    (not_finite_add_right _ fun hstep ↦ h.step (isFinite_iff.mpr hstep)) hfinite.isNumber

theorem within_foldl {xs : List Float32} {sum : Float32} (hsum : Within (-2 ^ 26) (2 ^ 26) sum)
    (hxs : ∀ x ∈ xs, Within (-2) 2 x) : Within (-2 ^ 26) (2 ^ 26) (xs.foldl (· + ·) sum) := by
  -- at `2 ^ 26` single precision is too coarse for a contribution to be noticed
  have hcap : Becomes .binary32 (2 ^ 26 + 2) (2 ^ 26) :=
    becomes_two_pow (F := .binary32) (k := 26) (by decide) (by decide) (by norm_num)
      (show (2 : ℚ) < 2 ^ (2 : ℤ) by norm_num)
  induction xs generalizing sum with
  | nil => exact hsum
  | cons x xs ih =>
    obtain ⟨hx, hxs⟩ := List.forall_mem_cons.mp hxs
    refine ih (hsum.add hx ?_ hcap) hxs
    rw [← neg_add]
    exact hcap.neg

theorem isNumber_mul {sum gain : Float32} (hsum : Within (-2 ^ 26) (2 ^ 26) sum)
    (hgain : Within 0 1 gain) : IsNumber (sum * gain) := by
  have hcap : Becomes .binary32 (2 ^ 26 * 1) (2 ^ 26) := by
    rw [mul_one]
    exact becomes_pow (F := .binary32) (by decide)
  have hgain' : Within (-1) 1 gain := hgain.mono (by norm_num) le_rfl
  exact (hsum.mul_of_abs hgain' hcap).finite.isNumber

variable [Elementary]

theorem within_contribution (hsin : Waveform.TameSine) (he : e.Sound)
    (h : e.waveform = .square ∨ Finite p) (ht : IsNumber t) :
    Within (-2) 2 (contribution e p t) := by
  have htwo : Becomes .binary32 (1 * 2) 2 := by
    rw [one_mul]
    exact becomes_natCast (m := 2) (by decide) (by decide)
  have hlevel : Within (-2) 2 (e.envelope.levelAt t) :=
    (he.bounded.within_levelAt ht).mono (by norm_num) le_rfl
  exact (Waveform.within_sample hsin h).mul_of_abs hlevel htwo

variable {s : Session}

def LostAt (s : Session) (rate : Float) (k : ℕ) : Prop :=
  ∃ v ∈ s.voices, ∃ e ∈ v.entries, e.isSounding (clockAt rate k) ∧ Lost rate e k

/-- What a session plays is a number, unless a phase is lost. -/
theorem isNaN_sampleAt_iff (hsin : Waveform.TameSine) (hs : s.Sound)
    (hrate : Number.Positive rate) (k : ℕ) :
    ((ofSession s rate).sampleAt k).isNaN ↔ LostAt s rate k := by
  have hmem {x : Located} (hx : x ∈ s.inOrder) :
      ∃ v ∈ s.voices, x.entry ∈ v.entries := by
    obtain ⟨v, hv, he⟩ := Session.mem_inOrder.mp hx
    exact ⟨v, List.mem_of_getElem? hv, Array.mem_of_getElem? he⟩
  rw [isNaN_iff_single, sampleAt_ofSession hrate hs.timed]
  constructor
  · intro hnan
    by_contra hlost
    have hsum {xs : List Float32} (hxs : ∀ x ∈ xs, Within (-2) 2 x) :
        IsNumber (xs.foldl (· + ·) 0.0 * (ofSession s rate).gain) :=
      isNumber_mul (within_foldl (within_zero_single.mono (by norm_num) (by norm_num)) hxs)
        (within_part (le_max_right _ _))
    refine hnan (isNumber_of_le (clip_in_range (hsum fun x hx ↦ ?_)).1).2
    obtain ⟨y, hy, rfl⟩ := List.mem_map.mp hx
    obtain ⟨hy, hsounding⟩ := List.mem_filter.mp hy
    obtain ⟨v, hv, he⟩ := hmem hy
    refine within_contribution hsin (hs v hv _ he) ?_ (clockAt_spec hrate k).1
    exact finite_phaseBefore fun h ↦ hlost ⟨v, hv, _, he, hsounding, h⟩
  · rintro ⟨v, hv, e, he, hsounding, hlost⟩
    obtain ⟨i, hi⟩ := List.mem_iff_getElem?.mp hv
    obtain ⟨j, hj⟩ := Array.mem_iff_getElem?.mp he
    have hx : (⟨i, j, e⟩ : Located) ∈ s.inOrder := Session.mem_inOrder.mpr ⟨v, hi, hj⟩
    refine not_isNumber_clip (not_isNumber_mul_left (not_isNumber_foldl
      (List.mem_map_of_mem (List.mem_filter.mpr ⟨hx, hsounding⟩)) ?_ _) _)
    exact not_isNumber_mul_left
      (Waveform.not_isNumber_sample hsin hlost.waveform hlost.not_finite) _

theorem sampleAt_in_range {r : Renderer} (h : ¬ (r.sampleAt k).isNaN) :
    -1.0 ≤ r.sampleAt k ∧ r.sampleAt k ≤ 1.0 := by
  rw [sampleAt, frame_eq] at h ⊢
  refine clip_in_range ?_
  by_contra hnot
  exact h (isNaN_iff_single.mpr (not_isNumber_clip hnot))

end Renderer

theorem Composition.sound_of_session [Elementary] {c : Composition} {s : Session}
    (h : c.session = .ok s) : s.Sound := by
  intro schedule hschedule e he
  obtain ⟨settings, -, hsettings⟩ := evaluate_of_session h schedule hschedule
  obtain ⟨hdials, notes, hnotes, hentries⟩ := VoiceSettings.entries_of_evaluate hsettings
  have hshort := NoteValue.short_of_written hnotes
  have hmem : e ∈ entriesOf notes (60.0 / settings.bpm.toFloat) settings.voice.adsr
      settings.waveform := by
    rw [← hentries, Array.mem_toList_iff]
    exact he
  have hplaced := placed_of_mem_entriesOf hshort (within_beat (hdials .bpm)) e hmem
  refine ⟨hplaced, ?_⟩
  obtain ⟨i, note, frequency, -, rfl⟩ := mem_entriesOf hmem
  exact Envelope.bounded_forNote hplaced.start hplaced.stop hplaced.le
    (shares_of_inRange hdials)

namespace Renderer.Recording

variable [Elementary]

theorem mem_block {s : Session} {rate : Float} {os : List Operation} {b : Block}
    (hb : b ∈ ((start s rate).run os).blocks) {x : Float32} (hx : x ∈ b.samples) :
    x = 0.0 ∨ b.transport = .running ∧ ∃ k, x = (ofSession s rate).sampleAt k := by
  have h : Seamless (ofSession s rate) ((start s rate).run os) :=
    (seamless_start s rate).run rfl os
  by_cases hrunning : b.transport = .running
  · have hplayed : x ∈ ((start s rate).run os).played := by
      rw [Recording.played, playedIn, List.mem_flatMap]
      exact ⟨b, List.mem_filter.mpr ⟨hb, by simpa using hrunning⟩, Array.mem_toList_iff.mpr hx⟩
    rw [← List.mem_toArray, h.played, block_running rfl, List.mem_toArray, List.mem_map] at hplayed
    obtain ⟨k, -, rfl⟩ := hplayed
    exact .inr ⟨hrunning, k, rfl⟩
  · rw [h.silent b hb hrunning] at hx
    exact .inl (Array.eq_of_mem_replicate hx)

theorem getElem?_played {s : Session} {rate : Float} {os : List Operation} {k : ℕ} {x : Float32}
    (h : ((start s rate).run os).played[k]? = some x) : x = (ofSession s rate).sampleAt k := by
  have hseamless : Seamless (ofSession s rate) ((start s rate).run os) :=
    (seamless_start s rate).run rfl os
  rw [← List.getElem?_toArray, hseamless.played, block_running rfl, List.getElem?_toArray,
    List.getElem?_map] at h
  obtain ⟨j, hj, rfl⟩ := Option.map_eq_some_iff.mp h
  rw [(List.getElem?_eq_some_iff.mp hj).2.symm, List.getElem_range]

/-- The samples that have been written are in range, but for those that are not a number; these are
the ones in which something sounds that has lost its phase. -/
structure InRange (s : Session) (rate : Float) (g : Recording) : Prop where
  range : ∀ b ∈ g.blocks, ∀ x ∈ b.samples,
    -1.0 ≤ x ∧ x ≤ 1.0 ∨ x.isNaN ∧ b.transport = .running
  isNaN_iff : ∀ k x, g.played[k]? = some x → (x.isNaN ↔ LostAt s rate k)
  of_finite : (∀ v ∈ s.voices, ∀ e ∈ v.entries,
      e.waveform = .square ∨ (e.frequency * (1.0 / rate)).isFinite) →
    ∀ b ∈ g.blocks, ∀ x ∈ b.samples, -1.0 ≤ x ∧ x ≤ 1.0

/-- Whatever is done with the renderer of a composition, only a phase that is lost takes what it
writes out of range. -/
theorem samples_in_range {c : Composition} {s : Session} {rate : Float} (hs : c.session = .ok s)
    (hsin : Waveform.TameSine) (hrate : Number.Positive rate) (os : List Operation) :
    InRange s rate ((start s rate).run os) := by
  have hsound := Composition.sound_of_session hs
  have hlost := isNaN_sampleAt_iff hsin hsound hrate
  refine ⟨fun b hb x hx ↦ ?_, fun k x hx ↦ ?_, fun hsteps b hb x hx ↦ ?_⟩
  · obtain rfl | ⟨hrunning, k, rfl⟩ := mem_block hb hx
    · exact .inl (by decide)
    · by_cases hnan : ((ofSession s rate).sampleAt k).isNaN
      · exact .inr ⟨hnan, hrunning⟩
      · exact .inl (sampleAt_in_range hnan)
  · rw [getElem?_played hx, hlost]
  · obtain rfl | ⟨-, k, rfl⟩ := mem_block hb hx
    · decide
    · refine sampleAt_in_range fun hnan ↦ ?_
      obtain ⟨v, hv, e, he, -, h⟩ := (hlost k).mp hnan
      rcases hsteps v hv e he with hsquare | hfinite
      · exact h.waveform hsquare
      · exact h.step hfinite

end Renderer.Recording

theorem Composition.session_singleton [Elementary] {v : VoiceSettings} {notes : List WrittenNote}
    {e : Entry} (hdials : ∀ d, v.inRange d) (hall : WrittenNote.parseAll v.melody = .ok notes)
    (he : entriesOf notes (60.0 / v.bpm.toFloat) v.voice.adsr v.waveform = [e]) :
    session ⟨[v]⟩ = .ok
      ⟨[⟨#[e], larger 0.0 e.finishTime⟩], larger 0.0 (larger 0.0 e.finishTime)⟩ := by
  have hv := VoiceSettings.validate_of_parseAll hdials hall
  obtain ⟨notes, hnotes, -, -, -, hschedule⟩ := VoiceSettings.schedule_of_validate hv
  obtain rfl := Except.ok.inj (hall.symm.trans hnotes)
  simp only [he] at hschedule
  have hvalidated : validated 0 [v] = .ok [v.voice] := by
    rw [validated, hv]
    rfl
  rw [session, hvalidated]
  simp only
  rw [Session.build, Session.schedules, hschedule]
  rfl

theorem Session.inOrder_singleton {s : Session} {e : Entry} {finish : Float}
    (h : s.voices = [⟨#[e], finish⟩]) : s.inOrder = [⟨0, 0, e⟩] := by
  rw [inOrder, located, h]
  exact List.mergeSort_singleton _

namespace Renderer.Recording

/-- The sine of the machine, cut at its extremes. -/
def tamed (x : Float) : Float :=
  if x.isNaN then x else larger (smaller (Float.sin x) 1.0) (-1.0)

@[reducible] def careful : Elementary where
  sin := tamed
  exp2 x := if x == 0.0 then 1.0 else Float.pow 2.0 x

theorem tameSine_careful : @Waveform.TameSine careful := by
  have hone : (1.0 : Float).isNaN = false := by decide
  have hminus : (-1.0 : Float).isNaN = false := by decide
  refine @Waveform.TameSine.mk careful (fun x hx ↦ ?_) fun x hx ↦ ?_
  · change -1.0 ≤ tamed x ∧ tamed x ≤ 1.0
    have hnumber : ¬ x.isNaN := by
      rw [isNaN_iff, not_not]
      exact (isFinite_iff.mp hx).isNumber
    rw [tamed, if_neg hnumber]
    have hsmaller : smaller (Float.sin x) 1.0 ≤ 1.0 := by
      simp only [smaller, hone, Bool.false_or, decide_eq_true_eq]
      split_ifs with h
      · exact Floating.le_of_lt h
      · decide
    generalize smaller (Float.sin x) 1.0 = y at hsmaller
    simp only [larger, hminus, Bool.false_or, decide_eq_true_eq]
    split_ifs with h
    · exact ⟨Floating.le_of_lt h, hsmaller⟩
    · decide
  · change (tamed x).isNaN
    rwa [tamed, if_pos hx]

def concert : VoiceSettings := { melody := "A4/4" }

theorem parseAll_concert :
    WrittenNote.parseAll concert.melody = .ok [⟨"A4/4", some ⟨.a, 4⟩, ⟨1, 4⟩⟩] := by
  have hall : WrittenNote.parseAll "A4/4" = .ok [⟨"A4/4", some ⟨.a, 4⟩, ⟨1, 4⟩⟩] := by cbv
  exact hall

theorem samples_of_concert : ∃ s, @Composition.session careful ⟨[concert]⟩ = .ok s ∧
    @Waveform.TameSine careful ∧ Number.Positive 8000.0 ∧
    InRange s 8000.0 (@run careful (start s 8000.0) [.render 100, .suspend, .render 10]) ∧
    ∀ v ∈ s.voices, ∀ e ∈ v.entries,
      e.waveform = .square ∨ (e.frequency * (1.0 / 8000.0)).isFinite := by
  have hdials : ∀ d, concert.inRange d := fun d ↦ by cases d <;> decide
  have hsession := @Composition.session_singleton careful _ _ _ hdials parseAll_concert rfl
  have hrate : Number.Positive 8000.0 := ⟨by decide, by decide⟩
  refine ⟨_, hsession, tameSine_careful, hrate,
    @samples_in_range careful _ _ _ hsession tameSine_careful hrate _, ?_⟩
  refine List.forall_mem_singleton.mpr fun e he ↦ .inr ?_
  obtain rfl := List.mem_singleton.mp (Array.mem_toList_iff.mpr he)
  decide +kernel

def muted : VoiceSettings :=
  { melody := "C100000/1", bpm := 60, waveform := .sawtooth, sustain := 0.0 }

theorem parseAll_muted :
    WrittenNote.parseAll muted.melody = .ok [⟨"C100000/1", some ⟨.c, 100000⟩, ⟨1, 1⟩⟩] := by
  have hall : WrittenNote.parseAll "C100000/1" =
      .ok [⟨"C100000/1", some ⟨.c, 100000⟩, ⟨1, 1⟩⟩] := by cbv
  exact hall

def mutedTone : Entry :=
  entryAfter ([] : List WrittenNote) (60.0 / muted.bpm.toFloat) muted.voice.adsr .sawtooth
    (Pitch.frequency ⟨.c, 100000⟩) ⟨1, 1⟩

/-- Its frequency is infinite, and the second sample is not a number. -/
theorem samples_of_muted : ∃ s, Composition.session ⟨[muted]⟩ = .ok s ∧ Number.Positive 8.0 ∧
    ∃ b ∈ ((start s 8.0).run [.render 4]).blocks, ∃ x ∈ b.samples, x.isNaN := by
  have hdials : ∀ d, muted.inRange d := fun d ↦ by cases d <;> decide
  obtain ⟨s, hsession, horder, hgain⟩ : ∃ s, Composition.session ⟨[muted]⟩ = .ok s ∧
      s.inOrder = [⟨0, 0, mutedTone⟩] ∧ (ofSession s 8.0).gain = 1.0 / Float32.ofNat 1 :=
    ⟨_, Composition.session_singleton (e := mutedTone) hdials parseAll_muted rfl,
      Session.inOrder_singleton rfl, rfl⟩
  have hrate : Number.Positive 8.0 := ⟨by decide, by decide⟩
  refine ⟨s, hsession, hrate, _, List.mem_singleton_self _, (ofSession s 8.0).sampleAt 1, ?_, ?_⟩
  · change _ ∈ ((ofSession s 8.0).block 4).1
    rw [block_running rfl, List.mem_toArray]
    exact List.mem_map_of_mem (List.mem_range.mpr (by decide))
  · rw [sampleAt_ofSession hrate (Composition.sound_of_session hsession).timed, horder, hgain,
      List.filter_cons_of_pos (by decide +kernel)]
    decide +kernel

end Renderer.Recording

end Polyphony
