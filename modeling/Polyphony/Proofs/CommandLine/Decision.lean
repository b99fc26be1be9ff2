import Polyphony.Proofs.CommandLine.Voices

namespace Polyphony.CommandLine

/-- The answer to some arguments: that of the first which decides, or else what they say. -/
inductive Answers : List String → Except Fault Request → Prop
  | decided {front rest : List String} {parts : List Part} {choices : List Choice}
      {r : Except Fault Request} (h : Says front parts choices) (hr : Decides rest r) :
      Answers (front ++ rest) r
  | trailing {args : List String} {parts : List Part} {choices : List Choice}
      (h : Says args parts choices) (hp : parts ≠ []) (hc : choices ≠ []) :
      Answers args (.error .trailingOptions)
  | play {args : List String} {parts : List Part} {choices : List Choice} {c : Composition}
      (h : Says args parts choices) (hp : Plays parts choices c) : Answers args (.ok (.play c))

variable {args : List String} {parts : List Part} {choices : List Choice} {text : String}
  {r : Except Fault Request}

theorem Answers.read_eq (h : Answers args r) : read args = r := by
  cases h with
  | decided h hr => rw [h.read_append, readFrom_of_decides hr]
  | trailing h hp hc => rw [h.read_eq, finish_of_parts hp, if_neg hc]
  | play h hp => rw [h.read_eq, finish_eq_play_iff.mpr hp]

theorem Says.exists_answers (h : Says args parts choices) : ∃ r, Answers args r := by
  by_cases hp : parts = []
  · subst hp
    exact ⟨_, .play h .demo⟩
  · by_cases hc : choices = []
    · subst hc
      exact ⟨_, .play h (.parts hp)⟩
    · exact ⟨_, .trailing h hp hc⟩

theorem exists_answers (args : List String) : ∃ r, Answers args r := by
  obtain ⟨parts, choices, h⟩ | ⟨before, after, parts, choices, r, hargs, h, hr⟩ :=
    Says.nil.says_or_decides args
  · exact h.exists_answers
  · rw [List.nil_append] at hargs
    exact ⟨r, hargs ▸ .decided h hr⟩

theorem read_eq_iff : read args = r ↔ Answers args r := by
  constructor
  · rintro rfl
    obtain ⟨r, hr⟩ := exists_answers args
    exact hr.read_eq ▸ hr
  · exact Answers.read_eq

theorem head?_of_flaglike (h : text = "-h" ∨ Dashed text) : text.toList.head? = some '-' := by
  obtain rfl | ⟨rest, hrest⟩ := h
  · rfl
  · rw [← hrest]
    rfl

theorem exists_refuses_of_flaglike (f : Flag) (h : text = "-h" ∨ Dashed text) :
    ∃ fault, Refuses f text fault := by
  have hhead := head?_of_flaglike h
  cases f with
  | preset =>
    refine ⟨_, .preset fun p hp ↦ ?_⟩
    subst hp
    cases p <;> cases hhead
  | bpm =>
    obtain ⟨rest, hrest⟩ := List.head?_eq_some_iff.mp hhead
    have hsign : text.toList.head? ≠ some '+' := by
      rw [hhead]
      decide
    have hstray : Text.FailsAfter 0 ([] ++ '-' :: rest) .strayCharacter :=
      .stray (List.forall_mem_nil _) (by decide) rfl
    rw [List.nil_append, ← hrest] at hstray
    exact ⟨_, .bpm (.plain hsign hstray)⟩
  | wave =>
    refine ⟨_, .wave fun w hw ↦ ?_⟩
    have hlower := congrArg List.head? (Waveform.sameLetters_name_iff.mp hw)
    rw [List.head?_map, hhead] at hlower
    cases w <;> cases hlower

/-- The first argument that decides settles the answer. What stands in the place of a value is one,
even if it looks like a flag. -/
theorem leftmost_argument_decides :
    (∀ args r, read args = r ↔ Answers args r) ∧
    ∀ front parts choices, Says front parts choices → ∀ f text after,
      (text = "-h" ∨ Dashed text) → ∃ fault, Refuses f text fault ∧
        read (front ++ f.name :: text :: after) = .error fault := by
  refine ⟨fun args r ↦ read_eq_iff, ?_⟩
  intro front parts choices h f text after htext
  obtain ⟨fault, hfault⟩ := exists_refuses_of_flaglike f htext
  exact ⟨fault, hfault, (Answers.decided h (.refused hfault)).read_eq⟩

example : read ["--preset", "--help", "C4/4"] = .error (.name (.unknownPreset "--help")) := rfl

end Polyphony.CommandLine
