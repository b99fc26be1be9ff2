import Polyphony.Proofs.CommandLine.Arguments

namespace Polyphony.CommandLine

inductive Plays : List Part → List Choice → Composition → Prop
  | parts {parts : List Part} (h : parts ≠ []) : Plays parts [] ⟨parts.map Part.settings⟩
  | demo {choices : List Choice} :
      Plays [] choices ⟨[Part.settings ⟨.preset .piano :: choices, demoMelody⟩]⟩

variable {parts : List Part} {choices : List Choice} {c : Composition} {a b args : List String}

theorem finish_nil (choices : List Choice) : finish ⟨[]⟩ (.ofChoices choices) =
    .ok (.play ⟨[Part.settings ⟨.preset .piano :: choices, demoMelody⟩]⟩) := by
  have hpiano : { Options.ofChoices choices with
      preset := some ((Options.ofChoices choices).preset.getD .piano) } =
        Options.ofChoices (.preset .piano :: choices) := by
    simp [Options.ofChoices, last, Choice.preset?, Choice.bpm?, Choice.wave?, List.getLast?_cons]
  rw [← settings_ofChoices, ← hpiano]
  rfl

theorem finish_of_parts (h : parts ≠ []) : finish ⟨parts.map Part.settings⟩ (.ofChoices choices) =
    if choices = [] then .ok (.play ⟨parts.map Part.settings⟩) else .error .trailingOptions := by
  have hvoices : (parts.map Part.settings).isEmpty = false := by
    rw [List.isEmpty_map]
    exact List.isEmpty_eq_false_iff.mpr h
  rw [finish, hvoices, if_neg Bool.false_ne_true]
  exact if_congr (isEmpty_ofChoices choices) rfl rfl

theorem finish_eq_play_iff : finish ⟨parts.map Part.settings⟩ (.ofChoices choices) = .ok (.play c) ↔
    Plays parts choices c := by
  constructor
  · intro h
    by_cases hparts : parts = []
    · subst hparts
      cases (finish_nil choices).symm.trans h
      exact .demo
    · rw [finish_of_parts hparts] at h
      split_ifs at h with hchoices
      cases h
      exact hchoices ▸ .parts hparts
  · intro h
    cases h with
    | parts hparts => rw [finish_of_parts hparts, if_pos rfl]
    | demo => exact finish_nil choices

theorem read_eq_play_iff : read args = .ok (.play c) ↔
    ∃ parts choices, Says args parts choices ∧ Plays parts choices c := by
  constructor
  · intro h
    obtain ⟨parts, choices, hs⟩ | ⟨before, after, parts, choices, r, hargs, hs, hr⟩ :=
      Says.nil.says_or_decides args
    · rw [List.nil_append] at hs
      exact ⟨parts, choices, hs, finish_eq_play_iff.mp (hs.read_eq.symm.trans h)⟩
    · rw [List.nil_append] at hargs
      rw [hargs, hs.read_append, readFrom_of_decides hr] at h
      subst h
      cases hr
  · intro h
    obtain ⟨parts, choices, hs, hplays⟩ := h
    exact hs.read_eq.trans (finish_eq_play_iff.mpr hplays)

theorem Says.append (ha : Says a parts []) {parts' : List Part} (hb : Says b parts' choices) :
    Says (a ++ b) (parts ++ parts') choices := by
  induction hb with
  | nil => rwa [List.append_nil, List.append_nil]
  | option _ hc ih =>
    rw [← List.append_assoc]
    exact ih.option hc
  | melody _ hm ih =>
    rw [← List.append_assoc, ← List.append_assoc]
    exact ih.melody hm

/-- Options belong to the melody that comes next and to no other, so that the voices of two lists
of arguments stand next to one another when the lists do. -/
theorem options_bind_to_next_voice :
    (∀ args c, read args = .ok (.play c) ↔
      ∃ parts choices, Says args parts choices ∧ Plays parts choices c) ∧
    ∀ a b parts parts' choices choices' A B, Says a parts choices → parts ≠ [] →
      Says b parts' choices' → parts' ≠ [] → read a = .ok (.play A) → read b = .ok (.play B) →
        read (a ++ b) = .ok (.play ⟨A.voices ++ B.voices⟩) := by
  refine ⟨fun args c ↦ read_eq_play_iff, ?_⟩
  intro a b parts parts' choices choices' A B ha hparts hb hparts' hA hB
  have hplays := finish_eq_play_iff.mp (ha.read_eq.symm.trans hA)
  have hplays' := finish_eq_play_iff.mp (hb.read_eq.symm.trans hB)
  cases hplays with
  | demo => exact absurd rfl hparts
  | parts =>
    cases hplays' with
    | demo => exact absurd rfl hparts'
    | parts =>
      refine read_eq_play_iff.mpr ⟨_, _, ha.append hb, ?_⟩
      rw [← List.map_append]
      exact .parts (List.append_ne_nil_of_left_ne_nil hparts _)

end Polyphony.CommandLine
