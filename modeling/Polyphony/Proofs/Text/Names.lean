import Polyphony.Proofs.Notation.Grammar
import Polyphony.Settings

namespace Polyphony

namespace Preset

theorem mem_all (p : Preset) : p ∈ all := by
  cases p <;> decide

theorem name_injective : Function.Injective name := by
  intro p q h
  have hall : ∀ p ∈ all, ∀ q ∈ all, p.name = q.name → p = q := by decide
  exact hall p p.mem_all q q.mem_all h

theorem ofName_eq_ok_iff {s : String} {p : Preset} : ofName s = .ok p ↔ p.name = s := by
  rw [← find?_name_eq_some_iff mem_all name_injective, ofName]
  cases all.find? fun p ↦ p.name = s <;> simp

theorem ofName_eq_error_iff {s : String} {e : Error} :
    ofName s = .error e ↔ (∀ p : Preset, p.name ≠ s) ∧ e = .unknownPreset s := by
  rw [← find?_name_eq_none_iff mem_all, ofName]
  cases all.find? fun p ↦ p.name = s <;> simp [eq_comm]

end Preset

/-- Texts that differ at most in the case of ASCII letters. -/
def SameLetters (s t : String) : Prop := s.toList.map Char.toLower = t.toList.map Char.toLower

namespace Waveform

theorem mem_all (w : Waveform) : w ∈ all := by
  cases w <;> decide

theorem name_injective : Function.Injective fun w ↦ (name w).toList := by
  intro v w h
  have hall : ∀ v ∈ all, ∀ w ∈ all, v.name.toList = w.name.toList → v = w := by decide
  exact hall v v.mem_all w w.mem_all h

theorem sameLetters_name_iff {s : String} {w : Waveform} :
    SameLetters s w.name ↔ w.name.toList = s.toList.map Char.toLower := by
  have hlower : w.name.toList.map Char.toLower = w.name.toList := by
    cases w <;> decide
  rw [SameLetters, hlower, eq_comm]

theorem ofName_eq_ok_iff {s : String} {w : Waveform} : ofName s = .ok w ↔ SameLetters s w.name := by
  rw [sameLetters_name_iff, ← find?_name_eq_some_iff mem_all name_injective, ofName, named?]
  cases all.find? fun w ↦ w.name.toList = s.toList.map Char.toLower <;> simp

theorem ofName_eq_error_iff {s : String} {e : Error} : ofName s = .error e ↔
    (∀ w : Waveform, ¬ SameLetters s w.name) ∧ e = .unknownWaveform s := by
  simp only [sameLetters_name_iff]
  rw [← find?_name_eq_none_iff mem_all, ofName, named?]
  cases all.find? fun w ↦ w.name.toList = s.toList.map Char.toLower <;> simp [eq_comm]

end Waveform

end Polyphony
