import Polyphony.Proofs.Renderer.Walk

namespace Polyphony

open Number

section Sorting

variable {α : Type*} {r : α → α → Bool}

/-- A sort keeps whatever relation there was between elements that it need not swap. -/
theorem pairwise_mergeSort_of_pairwise (trans : ∀ a b c, r a b → r b c → r a c)
    (total : ∀ a b, r a b || r b a) {R : α → α → Prop} {l : List α} (h : l.Pairwise R) :
    (l.mergeSort r).Pairwise fun a b ↦ r a b ∧ (r b a → R a b) := by
  induction l with
  | nil => simp
  | cons a l ih =>
    obtain ⟨ha, hl⟩ := List.pairwise_cons.mp h
    obtain ⟨l₁, l₂, hcons, htail, hfirst⟩ := List.mergeSort_cons trans total a l
    have hmem {b : α} (hb : b ∈ l₁ ++ l₂) : b ∈ l := by rwa [← htail, List.mem_mergeSort] at hb
    have hsorted := List.pairwise_mergeSort trans total (a :: l)
    specialize ih hl
    rw [hcons] at hsorted ⊢
    rw [htail] at ih
    obtain ⟨h₁, h₂, h₁₂⟩ := List.pairwise_append.mp ih
    obtain ⟨-, hs₂, hs₁⟩ := List.pairwise_append.mp hsorted
    refine List.pairwise_append.mpr
      ⟨h₁, List.pairwise_cons.mpr ⟨fun b hb ↦ ⟨?_, fun _ ↦ ?_⟩, h₂⟩, ?_⟩
    · exact (List.pairwise_cons.mp hs₂).1 b hb
    · exact ha b (hmem (List.mem_append_right _ hb))
    · intro b hb c hc
      rcases List.mem_cons.mp hc with rfl | hc
      · exact ⟨hs₁ b hb c List.mem_cons_self, fun hle ↦ absurd (hfirst b hb) (by simp [hle])⟩
      · exact h₁₂ b hb c hc

theorem pairwise_zipIdx (l : List α) : l.zipIdx.Pairwise fun x y ↦ x.2 < y.2 := by
  rw [← List.pairwise_map (R := (· < ·)), List.zipIdx_map_snd]
  exact List.pairwise_lt_range' 1 Nat.one_pos

end Sorting

structure Located where
  voice : ℕ
  place : ℕ
  entry : Entry

namespace Located

def event (x : Located) : Event := ⟨x.voice, x.entry⟩

def Earlier (x y : Located) : Prop :=
  x.voice < y.voice ∨ x.voice = y.voice ∧ x.place < y.place

/-- The order of the starts, of which those that are the same are in the order of the voices. -/
def Before (x y : Located) : Prop :=
  orderKey x.entry.startTime < orderKey y.entry.startTime ∨
    orderKey x.entry.startTime = orderKey y.entry.startTime ∧ x.Earlier y

end Located

namespace Session

def Has (s : Session) (x : Located) : Prop :=
  ∃ v, s.voices[x.voice]? = some v ∧ v.entries[x.place]? = some x.entry

def Timed (s : Session) : Prop :=
  ∀ v ∈ s.voices, ∀ e ∈ v.entries, e.Timed

/-- The entries that sound at a time, each once, in the order of their starts. -/
structure SoundingAt (s : Session) (t : Float) (xs : List Located) : Prop where
  mem_iff : ∀ x, x ∈ xs ↔ s.Has x ∧ x.entry.startTime ≤ t ∧ t ≤ x.entry.finishTime
  sorted : xs.Pairwise Located.Before

def located (s : Session) : List Located :=
  s.voices.zipIdx.flatMap fun v ↦ v.1.entries.toList.zipIdx.map fun e ↦ ⟨v.2, e.2, e.1⟩

variable {s : Session}

theorem mem_located {x : Located} : x ∈ s.located ↔ s.Has x := by
  simp only [located, List.mem_flatMap, List.mem_map, Has, List.mem_zipIdx_iff_getElem?,
    Array.getElem?_toList]
  constructor
  · rintro ⟨v, hv, e, he, rfl⟩
    exact ⟨v.1, hv, he⟩
  · rintro ⟨v, hv, he⟩
    exact ⟨(v, x.voice), hv, (x.entry, x.place), he, rfl⟩

theorem pairwise_located : s.located.Pairwise Located.Earlier := by
  rw [located, List.pairwise_flatMap]
  constructor
  · intro v _
    rw [List.pairwise_map]
    exact (pairwise_zipIdx _).imp fun h ↦ .inr ⟨rfl, h⟩
  · refine (pairwise_zipIdx _).imp fun {v w} h x hx y hy ↦ .inl ?_
    obtain ⟨d, -, rfl⟩ := List.mem_map.mp hx
    obtain ⟨e, -, rfl⟩ := List.mem_map.mp hy
    exact h

theorem map_event_located : s.located.map Located.event = Event.ofSession s := by
  rw [located, Event.ofSession, List.map_flatMap]
  congr 1
  funext ⟨v, i⟩
  change _ = v.entries.toList.map (Event.mk i)
  conv_rhs => rw [← List.zipIdx_map_fst 0 v.entries.toList]
  rw [List.map_map, List.map_map]
  rfl

def inOrder (s : Session) : List Located :=
  s.located.mergeSort fun x y ↦ x.event.key ≤ y.event.key

theorem map_event_inOrder : s.inOrder.map Located.event = Event.sort (Event.ofSession s) := by
  rw [← map_event_located]
  exact List.map_mergeSort fun _ _ _ _ ↦ rfl

theorem mem_inOrder {x : Located} : x ∈ s.inOrder ↔ s.Has x := by
  rw [inOrder, List.mem_mergeSort, mem_located]

theorem Timed.entry (h : s.Timed) {x : Located} (hx : s.Has x) : x.entry.Timed := by
  obtain ⟨v, hv, he⟩ := hx
  exact h v (List.mem_of_getElem? hv) _ (Array.mem_of_getElem? he)

theorem Timed.key_event (h : s.Timed) {x : Located} (hx : s.Has x) :
    x.event.key = orderKey x.entry.startTime :=
  if_neg (h.entry hx).start

theorem Timed.pairwise_inOrder (h : s.Timed) : s.inOrder.Pairwise Located.Before := by
  have hstable := pairwise_mergeSort_of_pairwise (l := s.located)
    (r := fun x y ↦ decide (x.event.key ≤ y.event.key))
    (by simpa using fun _ _ _ ↦ Int.le_trans) (by simpa using fun _ _ ↦ Int.le_total _ _)
    pairwise_located
  refine hstable.imp_of_mem fun hx hy hxy ↦ ?_
  rw [mem_inOrder] at hx hy
  simp only [decide_eq_true_eq, h.key_event hx, h.key_event hy] at hxy
  obtain ⟨hle, hrel⟩ := hxy
  rcases hle.lt_or_eq with hlt | heq
  · exact .inl hlt
  · exact .inr ⟨heq, hrel heq.ge⟩

theorem Timed.soundingAt (h : s.Timed) (t : Float) :
    s.SoundingAt t (s.inOrder.filter fun x ↦ x.entry.isSounding t) where
  mem_iff x := by rw [List.mem_filter, mem_inOrder, Renderer.isSounding_iff]
  sorted := h.pairwise_inOrder.filter _

theorem exists_located_iff {voice : ℕ} {v : VoiceSchedule} (hv : s.voices[voice]? = some v)
    {t : Float} {xs : List Located} (h : s.SoundingAt t xs) :
    (∃ x ∈ xs, x.voice = voice) ↔ v.soundingAt t ≠ [] := by
  rw [VoiceSchedule.soundingAt, Ne, List.filter_eq_nil_iff, not_forall]
  constructor
  · rintro ⟨x, hx, rfl⟩
    obtain ⟨⟨w, hw, he⟩, hs⟩ := (h.mem_iff x).mp hx
    obtain rfl : v = w := Option.some_inj.mp (hv.symm.trans hw)
    refine ⟨(x.entry, x.place), fun hn ↦ hn ?_ (Renderer.isSounding_iff.mpr hs)⟩
    rw [List.mem_zipIdx_iff_getElem?, Array.getElem?_toList]
    exact he
  · rintro ⟨⟨e, i⟩, he⟩
    rw [Classical.not_imp, not_not, List.mem_zipIdx_iff_getElem?, Array.getElem?_toList,
      Renderer.isSounding_iff] at he
    exact ⟨⟨voice, i, e⟩, (h.mem_iff _).mpr ⟨⟨v, hv, he.1⟩, he.2⟩, rfl⟩

end Session

namespace Renderer

variable {s : Session} {rate : Float}

theorem toList_events_ofSession (s : Session) (rate : Float) :
    (ofSession s rate).events.toList = s.inOrder.map Located.event :=
  s.map_event_inOrder.symm

theorem fresh_ofSession (h : Positive rate) (hs : s.Timed) : (ofSession s rate).Fresh where
  rate := h
  timed e he := by
    rw [← Array.mem_toList_iff, toList_events_ofSession] at he
    obtain ⟨x, hx, rfl⟩ := List.mem_map.mp he
    exact hs.entry (Session.mem_inOrder.mp hx)
  ordered := by
    rw [Ordered, toList_events_ofSession, List.pairwise_map]
    refine hs.pairwise_inOrder.imp fun {x y} hxy ↦ level_le_of_orderKey_le ?_
    rcases hxy with hlt | ⟨heq, -⟩
    · exact hlt.le
    · exact heq.le
  cursor := rfl
  active := rfl
  frames := rfl

theorem map_oscillators {β : Type*} {f : Oscillator → β} {g : Event → β} {k : ℕ}
    (h : ∀ x ∈ (ofSession s rate).numbered, f ⟨x.2, phaseBefore rate x.1.entry k⟩ = g x.1)
    (t : Float) :
    (oscillators rate k ((ofSession s rate).numbered.filter fun x ↦ x.1.entry.isSounding t)).map f =
      (s.inOrder.filter fun x ↦ x.entry.isSounding t).map fun x ↦ g x.event := by
  have hfst : (ofSession s rate).numbered.map Prod.fst = s.inOrder.map Located.event := by
    rw [numbered, List.zipIdx_map_fst, toList_events_ofSession]
  calc
    _ = ((ofSession s rate).numbered.filter fun x ↦ x.1.entry.isSounding t).map (g ∘ Prod.fst) := by
      rw [oscillators, List.map_map]
      exact List.map_congr_left fun x hx ↦ h x (List.mem_of_mem_filter hx)
    _ = (((ofSession s rate).numbered.map Prod.fst).filter fun e ↦ e.entry.isSounding t).map g := by
      rw [List.filter_map, List.map_map]
      rfl
    _ = _ := by
      rw [hfst, List.filter_map, List.map_map]
      rfl

theorem isVoiceActive_iff {r : Renderer} {voice : ℕ} :
    r.isVoiceActive voice ↔ some voice ∈ r.active.map r.voiceOf? := by
  simp [isVoiceActive]

section Playing

variable [Elementary] {k : ℕ}

def after (s : Session) (rate : Float) (k : ℕ) : Renderer := ((ofSession s rate).block (k + 1)).2

theorem after_eq (s : Session) (rate : Float) (k : ℕ) :
    after s rate k = advance^[k + 1] (ofSession s rate) := by
  rw [after, block_running rfl]

theorem map_active_after {β : Type*} (h : Positive rate) (hs : s.Timed) {f : Oscillator → β}
    {g : Event → β} (hf : ∀ x ∈ (ofSession s rate).numbered,
      f ⟨x.2, phaseBefore rate x.1.entry (k + 1)⟩ = g x.1) :
    (after s rate k).active.map f =
      (s.inOrder.filter fun x ↦ x.entry.isSounding (Float.ofNat k / rate)).map
        fun x ↦ g x.event := by
  rw [after_eq, ((fresh_ofSession h hs).walked_iterate (k + 1)).active]
  exact map_oscillators hf _

theorem events_after (h : Positive rate) (hs : s.Timed) :
    (after s rate k).events = (ofSession s rate).events := by
  rw [after_eq, ((fresh_ofSession h hs).walked_iterate (k + 1)).events]

theorem sampleAt_ofSession (h : Positive rate) (hs : s.Timed) :
    (ofSession s rate).sampleAt k = clip (((s.inOrder.filter fun x ↦
      x.entry.isSounding (clockAt rate k)).map fun x ↦
        contribution x.entry (phaseBefore rate x.entry k) (clockAt rate k)).foldl (· + ·) 0.0 *
          (ofSession s rate).gain) := by
  have hw := (fresh_ofSession h hs).walked_iterate k
  rw [sampleAt, frame_eq]
  simp only
  rw [hw.voices (fresh_ofSession h hs), hw.gain, hw.time, hw.events,
    show (ofSession s rate).sampleRate = rate from rfl]
  congr 3
  refine map_oscillators (g := fun e ↦ contribution e.entry (phaseBefore rate e.entry k)
    (clockAt rate k)) (fun x hx ↦ ?_) _
  rw [voiced, mem_numbered.mp hx]

/-- What sounds at sample `k`, added up from the left, of which each voice has the same share. -/
def mixture (s : Session) (rate : Float) (k : ℕ) (xs : List Located) : Float32 :=
  (xs.map fun x ↦ x.entry.waveform.sample (phaseBefore rate x.entry k) *
    x.entry.envelope.levelAt (Float.ofNat k / rate)).foldl (· + ·) 0.0 *
      (1.0 / Float32.ofNat (max s.voices.length 1))

/-- What sample `k` of a block of `n` is, and what it leaves behind, where `xs` is what sounds. -/
structure Plays (s : Session) (rate : Float) (n k : ℕ) (xs : List Located) : Prop where
  active : (after s rate k).active.map (fun o ↦ ((after s rate k).events[o.event]?, o.phase)) =
    xs.map fun x ↦ (some x.event, phaseBefore rate x.entry (k + 1))
  count : (after s rate k).active.length = xs.length
  voices : ∀ (voice : ℕ) (v : VoiceSchedule), s.voices[voice]? = some v →
    ((after s rate k).isVoiceActive voice ↔ v.soundingAt (Float.ofNat k / rate) ≠ [])
  sample : ((ofSession s rate).block n).1[k]? = some
    (if mixture s rate k xs < -1.0 then -1.0
      else if 1.0 < mixture s rate k xs then 1.0 else mixture s rate k xs)

/-- The walk through the sorted events plays what a look at the whole session says: at each sample
the oscillators are the entries that sound, and the sample is their sum. -/
theorem block_plays_sounding (h : Positive rate) (hs : s.Timed) {n : ℕ} (hk : k < n) :
    ∃ xs, s.SoundingAt (Float.ofNat k / rate) xs ∧ Plays s rate n k xs := by
  have hsound := hs.soundingAt (Float.ofNat k / rate)
  refine ⟨_, hsound, ?_, ?_, fun voice v hv ↦ ?_, ?_⟩
  · rw [events_after h hs]
    refine map_active_after h hs (g := fun e ↦ (some e, phaseBefore rate e.entry (k + 1)))
      fun x hx ↦ ?_
    rw [mem_numbered.mp hx]
  · have hlen := map_active_after (k := k) h hs (f := fun _ ↦ ()) (g := fun _ ↦ ()) fun _ _ ↦ rfl
    simpa using congrArg List.length hlen
  · rw [← Session.exists_located_iff hv hsound, isVoiceActive_iff,
      map_active_after h hs (g := fun e ↦ some e.voice)]
    · simp [Located.event]
    · intro x hx
      rw [voiceOf?, events_after h hs, mem_numbered.mp hx, Option.map_some]
  · rw [block_running rfl, List.getElem?_toArray, List.getElem?_map, List.getElem?_range hk,
      Option.map_some, sampleAt_ofSession h hs]
    rfl

end Playing

def duet : Session where
  voices :=
    [⟨#[⟨440.0, 0.0, 1.0, .forNote 0.0 1.0 .standard, .sine, true⟩], 1.01⟩,
      ⟨#[⟨660.0, 0.0, 0.5, .forNote 0.0 0.5 .standard, .square, true⟩], 0.505⟩]
  finishTime := 1.01

theorem block_plays_duet : Positive 8000.0 ∧ duet.Timed ∧
    ∃ xs, duet.SoundingAt (Float.ofNat 5000 / 8000.0) xs ∧ Plays duet 8000.0 6000 5000 xs := by
  have hrate : Positive 8000.0 := ⟨by decide, by decide⟩
  have htimed : duet.Timed := by
    rw [Session.Timed, duet, List.forall_mem_cons, List.forall_mem_singleton]
    simp only [List.mem_toArray, List.mem_singleton, forall_eq]
    exact ⟨⟨by decide, by decide⟩, ⟨by decide, by decide⟩⟩
  exact ⟨hrate, htimed, block_plays_sounding hrate htimed (by decide)⟩

end Renderer

end Polyphony
