import Mathlib.Order.Monotone.Basic

/-!
# Leading digits

A format that keeps the leading digits of a value cuts it to a multiple of a unit, and takes a larger
unit for larger values.  The value that is kept never decreases when the value grows, because a larger
unit is only taken from a multiple of it on.
-/

namespace Kerrigan.Lib

def truncate (unit value : Nat) : Nat := value / unit * unit

@[simp] theorem truncate_one (value : Nat) : truncate 1 value = value := by
  simp [truncate]

theorem truncate_le (unit value : Nat) : truncate unit value ≤ value :=
  Nat.div_mul_le_self value unit

theorem truncate_mono (unit : Nat) {value larger : Nat} (hle : value ≤ larger) :
    truncate unit value ≤ truncate unit larger :=
  Nat.mul_le_mul_right unit (Nat.div_le_div_right hle)

theorem le_truncate_of_dvd {unit multiple value : Nat} (hdvd : unit ∣ multiple)
    (hle : multiple ≤ value) : multiple ≤ truncate unit value := by
  calc multiple = truncate unit multiple := (Nat.div_mul_cancel hdvd).symm
    _ ≤ truncate unit value := truncate_mono unit hle

theorem truncate_monotone {unit exponent start : Nat → Nat} (hdvd : ∀ e, unit e ∣ start e)
    (hlow : ∀ value, start (exponent value) ≤ value)
    (hhigh : ∀ value e, exponent value < e → value < start e) :
    Monotone (fun value => truncate (unit (exponent value)) value) := by
  intro value larger hle
  dsimp only
  rcases Nat.lt_trichotomy (exponent value) (exponent larger) with hless | hsame | hmore
  · calc truncate (unit (exponent value)) value ≤ value := truncate_le _ _
      _ ≤ start (exponent larger) := (hhigh value _ hless).le
      _ ≤ truncate (unit (exponent larger)) larger :=
        le_truncate_of_dvd (hdvd _) (hlow larger)
  · rw [hsame]
    exact truncate_mono _ hle
  · have hbelow := hhigh larger _ hmore
    have habove := hlow value
    omega

end Kerrigan.Lib
