import Polyphony.CommandLine
import Polyphony.Proofs.Text.Names
import Polyphony.Proofs.Text.Word

namespace Polyphony.CommandLine

open Text (FailsAsWord)

inductive Choice
  | preset (p : Preset)
  | bpm (n : UInt32)
  | wave (w : Waveform)

/-- A melody, and the options in front of it that are its own. -/
structure Part where
  choices : List Choice
  melody : String

inductive Gives : Flag → String → Choice → Prop
  | preset {p : Preset} : Gives .preset p.name (.preset p)
  | bpm {text : String} {n : ℕ} (h : UnsignedNumeral text.toList n) (hn : n < 2 ^ 32) :
      Gives .bpm text (.bpm (.ofNat n))
  | wave {text : String} {w : Waveform} (h : SameLetters text w.name) : Gives .wave text (.wave w)

inductive Refuses : Flag → String → Fault → Prop
  | preset {text : String} (h : ∀ p : Preset, p.name ≠ text) :
      Refuses .preset text (.name (.unknownPreset text))
  | bpm {text : String} {cause : Text.NumeralFault} (h : FailsAsWord text.toList cause) :
      Refuses .bpm text (.tempo text cause)
  | wave {text : String} (h : ∀ w : Waveform, ¬ SameLetters text w.name) :
      Refuses .wave text (.name (.unknownWaveform text))

def Choice.preset? : Choice → Option Preset
  | .preset p => some p
  | _ => none

def Choice.bpm? : Choice → Option UInt32
  | .bpm n => some n
  | _ => none

def Choice.wave? : Choice → Option Waveform
  | .wave w => some w
  | _ => none

def last {α : Type} (kind : Choice → Option α) (choices : List Choice) : Option α :=
  (choices.filterMap kind).getLast?

def fresh (melody : String) : Option Preset → VoiceSettings
  | none => ⟨melody, 100, .sine, 0.01, 0.01, 1.0, 0.01⟩
  | some .piano => ⟨melody, 100, .sine, 0.01, 0.44, 0.01, 0.3⟩
  | some .synthesizer => ⟨melody, 200, .sawtooth, 0.01, 0.01, 1.0, 0.01⟩
  | some .drums => ⟨melody, 144, .triangle, 0.01, 0.15, 0.01, 0.01⟩

/-- The last tempo and the last waveform of a part take the place of those of its last preset, in
whatever order they were given. -/
def Part.settings (part : Part) : VoiceSettings :=
  let base := fresh part.melody (last Choice.preset? part.choices)
  { base with
    bpm := (last Choice.bpm? part.choices).getD base.bpm
    waveform := (last Choice.wave? part.choices).getD base.waveform }

def Dashed (arg : String) : Prop := ['-', '-'] <+: arg.toList

structure IsMelody (arg : String) : Prop where
  ne_help : arg ≠ "-h"
  not_dashed : ¬ Dashed arg

/-- What arguments say: melodies with their options, and options that still wait for a melody. -/
inductive Says : List String → List Part → List Choice → Prop
  | nil : Says [] [] []
  | option {args : List String} {parts : List Part} {choices : List Choice} {f : Flag}
      {text : String} {choice : Choice} (h : Says args parts choices) (hc : Gives f text choice) :
      Says (args ++ [f.name, text]) parts (choices ++ [choice])
  | melody {args : List String} {parts : List Part} {choices : List Choice} {arg : String}
      (h : Says args parts choices) (hm : IsMelody arg) :
      Says (args ++ [arg]) (parts ++ [⟨choices, arg⟩]) []

/-- Arguments that settle the answer, whatever comes after. -/
inductive Decides : List String → Except Fault Request → Prop
  | help {arg : String} {after : List String} (h : arg = "-h" ∨ arg = "--help") :
      Decides (arg :: after) (.ok .help)
  | missing (f : Flag) : Decides [f.name] (.error (.missingValue f))
  | refused {f : Flag} {text : String} {fault : Fault} {after : List String}
      (h : Refuses f text fault) : Decides (f.name :: text :: after) (.error fault)
  | unknown {arg : String} {after : List String} (hd : Dashed arg) (hh : arg ≠ "--help")
      (hf : ∀ f : Flag, arg ≠ f.name) : Decides (arg :: after) (.error (.unknownOption arg))

section Arguments

variable {arg : String}

theorem dashed_name (f : Flag) : Dashed f.name := by
  cases f <;> exact ⟨_, rfl⟩

theorem dashed_help : Dashed "--help" := ⟨_, rfl⟩

theorem isPrefixOf_eq_true_iff : ['-', '-'].isPrefixOf arg.toList = true ↔ Dashed arg :=
  List.isPrefixOf_iff_prefix

theorem ofString_of_help (h : arg = "-h" ∨ arg = "--help") : Argument.ofString arg = .help := by
  rcases h with rfl | rfl <;> rfl

theorem ofString_name (f : Flag) : Argument.ofString f.name = .flag f := by
  cases f <;> rfl

theorem ofString_of_not_named (hshort : arg ≠ "-h") (hlong : arg ≠ "--help")
    (hf : ∀ f : Flag, arg ≠ f.name) : Argument.ofString arg =
      if ['-', '-'].isPrefixOf arg.toList then .unknown else .melody := by
  have hfind : ([Flag.preset, .bpm, .wave].find? fun f ↦ f.name = arg) = none := by
    rw [List.find?_eq_none]
    intro f _ heq
    exact hf f (of_decide_eq_true heq).symm
  rw [Argument.ofString, hfind]
  simp [hshort, hlong]

theorem ofString_of_unknown (hd : Dashed arg) (hlong : arg ≠ "--help")
    (hf : ∀ f : Flag, arg ≠ f.name) : Argument.ofString arg = .unknown := by
  have hshort : arg ≠ "-h" := by
    rintro rfl
    revert hd
    simp [Dashed]
  rw [ofString_of_not_named hshort hlong hf, if_pos (isPrefixOf_eq_true_iff.mpr hd)]

theorem ofString_of_isMelody (h : IsMelody arg) : Argument.ofString arg = .melody := by
  have hlong : arg ≠ "--help" := by
    rintro rfl
    exact h.not_dashed dashed_help
  have hf : ∀ f : Flag, arg ≠ f.name := by
    rintro f rfl
    exact h.not_dashed (dashed_name f)
  rw [ofString_of_not_named h.ne_help hlong hf,
    if_neg fun hd ↦ h.not_dashed (isPrefixOf_eq_true_iff.mp hd)]

theorem argument_cases (arg : String) : (arg = "-h" ∨ arg = "--help") ∨ (∃ f : Flag, arg = f.name) ∨
    (Dashed arg ∧ arg ≠ "--help" ∧ ∀ f : Flag, arg ≠ f.name) ∨ IsMelody arg := by
  by_cases hh : arg = "-h" ∨ arg = "--help"
  · exact .inl hh
  · obtain ⟨hshort, hlong⟩ := not_or.mp hh
    by_cases hf : ∃ f : Flag, arg = f.name
    · exact .inr (.inl hf)
    · by_cases hd : Dashed arg
      · exact .inr (.inr (.inl ⟨hd, hlong, not_exists.mp hf⟩))
      · exact .inr (.inr (.inr ⟨hshort, hd⟩))

end Arguments

section Reading

variable {o o' : Options} {f : Flag} {text arg : String} {choice : Choice} {choices : List Choice}
  {fault : Fault} {c : Composition} {args front rest : List String} {parts : List Part}
  {r : Except Fault Request}

def Options.take (o : Options) : Choice → Options
  | .preset p => { o with preset := some p }
  | .bpm n => { o with bpm := some n }
  | .wave w => { o with wave := some w }

def Options.ofChoices (choices : List Choice) : Options :=
  ⟨last Choice.preset? choices, last Choice.bpm? choices, last Choice.wave? choices⟩

theorem ofChoices_append (choices : List Choice) (choice : Choice) :
    Options.ofChoices (choices ++ [choice]) = (Options.ofChoices choices).take choice := by
  cases choice <;>
    simp [Options.ofChoices, Options.take, last, Choice.preset?, Choice.bpm?, Choice.wave?]

theorem isEmpty_ofChoices (choices : List Choice) :
    (Options.ofChoices choices).isEmpty ↔ choices = [] := by
  induction choices using List.reverseRecOn with
  | nil => exact iff_of_true rfl rfl
  | append_singleton choices choice ih =>
    rw [ofChoices_append]
    refine iff_of_false ?_ (List.append_ne_nil_of_right_ne_nil _ (List.cons_ne_nil _ _))
    cases choice <;> simp [Options.take, Options.isEmpty]

theorem settings_ofChoices (choices : List Choice) (melody : String) :
    (Options.ofChoices choices).settings melody = Part.settings ⟨choices, melody⟩ := by
  rw [Options.settings, Part.settings, Options.ofChoices]
  cases last Choice.preset? choices with
  | none => rfl
  | some p => cases p <;> rfl

theorem set_of_gives (h : Gives f text choice) : o.set f text = .ok (o.take choice) := by
  cases h with
  | preset =>
    rw [Options.set, Preset.ofName_eq_ok_iff.mpr rfl]
    rfl
  | bpm h hn =>
    rw [Options.set, Text.word32_eq_ok_iff.mpr ⟨_, h, hn, rfl⟩]
    rfl
  | wave h =>
    rw [Options.set, Waveform.ofName_eq_ok_iff.mpr h]
    rfl

theorem set_of_refuses (h : Refuses f text fault) : o.set f text = .error fault := by
  cases h with
  | preset h =>
    rw [Options.set, Preset.ofName_eq_error_iff.mpr ⟨h, rfl⟩]
    rfl
  | bpm h =>
    rw [Options.set, Text.word32_eq_error_iff.mpr h]
    rfl
  | wave h =>
    rw [Options.set, Waveform.ofName_eq_error_iff.mpr ⟨h, rfl⟩]
    rfl

theorem gives_or_refuses (f : Flag) (text : String) :
    (∃ choice, Gives f text choice) ∨ ∃ fault, Refuses f text fault := by
  cases f with
  | preset =>
    cases h : Preset.ofName text with
    | ok p =>
      obtain rfl := Preset.ofName_eq_ok_iff.mp h
      exact .inl ⟨_, .preset⟩
    | error e => exact .inr ⟨_, .preset (Preset.ofName_eq_error_iff.mp h).1⟩
  | bpm =>
    cases h : Text.word32 text.toList with
    | ok n =>
      obtain ⟨m, hm, hlt, -⟩ := Text.word32_eq_ok_iff.mp h
      exact .inl ⟨_, .bpm hm hlt⟩
    | error cause => exact .inr ⟨_, .bpm (Text.word32_eq_error_iff.mp h)⟩
  | wave =>
    cases h : Waveform.ofName text with
    | ok w => exact .inl ⟨_, .wave (Waveform.ofName_eq_ok_iff.mp h)⟩
    | error e => exact .inr ⟨_, .wave (Waveform.ofName_eq_error_iff.mp h).1⟩

theorem readFrom_option (h : Gives f text choice) :
    readFrom c o (f.name :: text :: rest) = readFrom c (o.take choice) rest := by
  rw [readFrom]
  simp only [ofString_name, set_of_gives h]

theorem readFrom_melody (h : IsMelody arg) :
    readFrom c o (arg :: rest) = readFrom (c.add (o.settings arg)) {} rest := by
  rw [readFrom]
  simp only [ofString_of_isMelody h]

theorem readFrom_of_decides (h : Decides rest r) : readFrom c o rest = r := by
  rw [readFrom.eq_def]
  cases h with
  | help h => simp only [ofString_of_help h]
  | missing f => simp only [ofString_name]
  | refused h => simp only [ofString_name, set_of_refuses h]
  | unknown hd hh hf => simp only [ofString_of_unknown hd hh hf]

theorem Says.read_append (h : Says front parts choices) (rest : List String) :
    read (front ++ rest) =
      readFrom ⟨parts.map Part.settings⟩ (.ofChoices choices) rest := by
  induction h generalizing rest with
  | nil => rfl
  | option _ hc ih =>
    rw [List.append_assoc, ih, List.cons_append, List.singleton_append, readFrom_option hc,
      ofChoices_append]
  | melody _ hm ih =>
    rw [List.append_assoc, ih, List.singleton_append, readFrom_melody hm, settings_ofChoices,
      List.map_append, List.map_singleton]
    rfl

theorem Says.read_eq (h : Says args parts choices) :
    read args = finish ⟨parts.map Part.settings⟩ (.ofChoices choices) := by
  have hread := h.read_append []
  rwa [List.append_nil] at hread

/-- Arguments say something up to the first that decides, or to the end. -/
theorem Says.says_or_decides {front : List String} {parts : List Part} {choices : List Choice}
    (h : Says front parts choices) : ∀ rest : List String,
      (∃ parts choices, Says (front ++ rest) parts choices) ∨
        ∃ before after parts choices r, front ++ rest = before ++ after ∧
          Says before parts choices ∧ Decides after r
  | [] => .inl ⟨parts, choices, by rwa [List.append_nil]⟩
  | arg :: rest => by
    obtain hhelp | ⟨f, rfl⟩ | ⟨hd, hlong, hf⟩ | hm := argument_cases arg
    · exact .inr ⟨front, _, parts, choices, _, rfl, h, .help hhelp⟩
    · -- The argument after an option is never looked at as one itself.
      cases rest with
      | nil => exact .inr ⟨front, _, parts, choices, _, rfl, h, .missing f⟩
      | cons text rest =>
        obtain ⟨choice, hc⟩ | ⟨fault, hr⟩ := gives_or_refuses f text
        · have hrest := (h.option hc).says_or_decides rest
          rwa [List.append_assoc] at hrest
        · exact .inr ⟨front, _, parts, choices, _, rfl, h, .refused hr⟩
    · exact .inr ⟨front, _, parts, choices, _, rfl, h, .unknown hd hlong hf⟩
    · have hrest := (h.melody hm).says_or_decides rest
      rwa [List.append_assoc] at hrest

end Reading

end Polyphony.CommandLine
