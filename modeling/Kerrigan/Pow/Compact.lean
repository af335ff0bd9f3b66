import Kerrigan.Lib.Width
import Kerrigan.Lib.Truncation
import Mathlib.Data.Nat.Log
import Mathlib.Tactic.Ring

/-!
# Compact targets

The 32-bit form of a 256-bit target: a byte that says how many bytes the target has, a sign
bit, and the three leading bytes.  Encoding drops the bytes below the leading ones, so that a
target decodes to itself or to less, and never to zero.
-/

namespace Kerrigan.Pow

open Lib Width

/-- What `SetCompact` finds: the target and the two flags. -/
structure Decoded where
  target : Nat
  fNegative : Bool
  fOverflow : Bool
  deriving DecidableEq

def setCompact (nCompact : Nat) : Decoded :=
  let nSize := nCompact / 2 ^ 24
  let nMantissa := nCompact % 2 ^ 23
  let nWord := if nSize ≤ 3 then nMantissa / 2 ^ (8 * (3 - nSize)) else nMantissa
  { target :=
      if nSize ≤ 3 then nWord else nWord * 2 ^ (8 * (nSize - 3)) % 2 ^ 256
    fNegative := nWord ≠ 0 && nCompact / 2 ^ 23 % 2 = 1
    fOverflow := nWord ≠ 0 && (34 < nSize || (0xff < nWord && 33 < nSize) ||
      (0xffff < nWord && 32 < nSize)) }

def bits (value : Nat) : Nat := if value = 0 then 0 else Nat.log 2 value + 1

def leadingBytes (width : Width) (nSize value : Nat) : Nat :=
  if nSize ≤ 3 then width.uint32 (width.uint64 value * 2 ^ (8 * (3 - nSize)) : Nat)
  else width.uint32 (width.uint64 (value / 2 ^ (8 * (nSize - 3)) : Nat))

def getCompact (width : Width) (value : Nat) : Nat :=
  let nSize := (bits value + 7) / 8
  let nCompact := leadingBytes width nSize value
  if nCompact / 2 ^ 23 % 2 = 1 then nCompact / 2 ^ 8 + (nSize + 1) * 2 ^ 24
  else nCompact + nSize * 2 ^ 24

theorem setCompact_lt (nCompact : Nat) : (setCompact nCompact).target < 2 ^ 256 := by
  have hmantissa : nCompact % 2 ^ 23 < 2 ^ 23 := Nat.mod_lt _ (by decide)
  simp only [setCompact]
  split
  · exact lt_of_le_of_lt (Nat.div_le_self _ _) (hmantissa.trans (by decide))
  · exact Nat.mod_lt _ (Nat.two_pow_pos 256)

/-! ## Parts of a compact form -/

variable {nWord : Nat}

theorem compact_parts (nSize : Nat) (hword : nWord < 2 ^ 23) :
    (nWord + nSize * 2 ^ 24) / 2 ^ 24 = nSize ∧ (nWord + nSize * 2 ^ 24) % 2 ^ 23 = nWord ∧
      (nWord + nSize * 2 ^ 24) / 2 ^ 23 % 2 = 0 := by
  refine ⟨?_, ?_, ?_⟩ <;> omega

variable {nSize : Nat}

theorem setCompact_small (hword : nWord < 2 ^ 23) (hsize : nSize ≤ 3) :
    setCompact (nWord + nSize * 2 ^ 24) =
      { target := nWord / 2 ^ (8 * (3 - nSize)), fNegative := false, fOverflow := false } := by
  obtain ⟨hparts, hmantissa, hsign⟩ := compact_parts nSize hword
  unfold setCompact
  simp only [hparts, hmantissa, hsign, if_pos hsize]
  rw [decide_eq_false (show ¬ 34 < nSize by omega), decide_eq_false (show ¬ 33 < nSize by omega),
    decide_eq_false (show ¬ 32 < nSize by omega)]
  simp

theorem setCompact_large (hword : nWord < 2 ^ 23) (hsize : 3 < nSize) (hfits : nSize ≤ 33)
    (hwide : nWord ≤ 0xffff ∨ nSize ≤ 32) :
    setCompact (nWord + nSize * 2 ^ 24) =
      { target := nWord * 2 ^ (8 * (nSize - 3)) % 2 ^ 256
        fNegative := false
        fOverflow := false } := by
  obtain ⟨hparts, hmantissa, hsign⟩ := compact_parts nSize hword
  have hlarge : ¬ nSize ≤ 3 := by omega
  have hoverflow : (decide (0xffff < nWord) && decide (32 < nSize)) = false := by
    rcases hwide with hwide | hwide
    · rw [decide_eq_false (show ¬ 0xffff < nWord by omega)]
      rfl
    · rw [decide_eq_false (show ¬ 32 < nSize by omega), Bool.and_false]
  unfold setCompact
  simp only [hparts, hmantissa, hsign, if_neg hlarge, hoverflow]
  rw [decide_eq_false (show ¬ 34 < nSize by omega), decide_eq_false (show ¬ 33 < nSize by omega)]
  simp

theorem lt_two_pow_bits (value : Nat) : value < 2 ^ bits value := by
  unfold bits
  split
  · omega
  · exact Nat.lt_pow_succ_log_self (by decide) value

variable {value : Nat}

theorem lt_bits_iff {exponent : Nat} : exponent < bits value ↔ 2 ^ exponent ≤ value := by
  constructor
  · intro hlt
    unfold bits at hlt
    split at hlt
    · omega
    · rename_i hpos
      exact (Nat.pow_le_pow_right (by decide) (by omega)).trans (Nat.pow_log_le_self 2 hpos)
  · intro hle
    by_contra hnot
    have hpow : 2 ^ bits value ≤ 2 ^ exponent := Nat.pow_le_pow_right (by decide) (by omega)
    have hlt := lt_two_pow_bits value
    omega

theorem size_bounds (hpos : 0 < value) (hlt : value < 2 ^ 256) :
    let nSize := (bits value + 7) / 8
    1 ≤ nSize ∧ nSize ≤ 32 ∧ 2 ^ (8 * (nSize - 1)) ≤ value ∧ value < 2 ^ (8 * nSize) := by
  intro nSize
  have hsize : nSize = (bits value + 7) / 8 := rfl
  have hsome : 0 < bits value := lt_bits_iff.mpr hpos
  have hfew : ¬ 256 < bits value := by
    rw [lt_bits_iff]
    omega
  refine ⟨by omega, by omega, ?_, ?_⟩
  · exact lt_bits_iff.mp (by omega)
  · exact (lt_two_pow_bits value).trans_le (Nat.pow_le_pow_right (by decide) (by omega))

/-- Flags and target of a compact form that came from a positive target. -/
def DecodesWithin (decoded : Decoded) (limit : Nat) : Prop :=
  decoded.fNegative = false ∧ decoded.fOverflow = false ∧ 0 < decoded.target ∧
    decoded.target ≤ limit

/-! ## The encoding does not wrap -/

theorem leadingBytes_unbounded (nSize value : Nat) :
    leadingBytes unbounded nSize value =
      if nSize ≤ 3 then value * 2 ^ (8 * (3 - nSize)) else value / 2 ^ (8 * (nSize - 3)) := rfl

theorem leadingBytes_lt (hvalue : value < 2 ^ (8 * nSize)) :
    leadingBytes unbounded nSize value < 2 ^ 24 := by
  rw [leadingBytes_unbounded]
  split
  case isTrue hsmall =>
    have hpow : 2 ^ (8 * nSize) * 2 ^ (8 * (3 - nSize)) = 2 ^ 24 := by
      rw [← Nat.pow_add]
      congr 1
      omega
    rw [← hpow]
    exact Nat.mul_lt_mul_of_pos_right hvalue (Nat.two_pow_pos _)
  case isFalse hlarge =>
    rw [Nat.div_lt_iff_lt_mul (Nat.two_pow_pos _), ← Nat.pow_add]
    refine lt_of_lt_of_le hvalue (Nat.pow_le_pow_right (by decide) ?_)
    omega

theorem leadingBytes_machine (hvalue : value < 2 ^ (8 * nSize)) :
    leadingBytes machine nSize value = leadingBytes unbounded nSize value := by
  have hlt := leadingBytes_lt hvalue
  rw [leadingBytes_unbounded] at hlt ⊢
  unfold leadingBytes
  split
  case isTrue hsmall =>
    rw [if_pos hsmall] at hlt
    have hword : value < 2 ^ 24 :=
      lt_of_lt_of_le hvalue (Nat.pow_le_pow_right (by decide) (by omega))
    rw [machine_uint64 (by omega) (by omega), Int.toNat_natCast,
      machine_uint32 (by omega) (by omega), Int.toNat_natCast]
  case isFalse hlarge =>
    rw [if_neg hlarge] at hlt
    rw [machine_uint64 (Int.natCast_nonneg _) (by omega), Int.toNat_natCast,
      machine_uint32 (Int.natCast_nonneg _) (by omega), Int.toNat_natCast]

theorem getCompact_machine (hlt : value < 2 ^ 256) :
    getCompact machine value = getCompact unbounded value := by
  unfold getCompact
  by_cases hzero : value = 0
  · subst hzero
    rfl
  · obtain ⟨-, -, -, hhigh⟩ := size_bounds (Nat.pos_of_ne_zero hzero) hlt
    simp only [leadingBytes_machine hhigh]

/-! ## Decoding what was encoded -/

def droppedBytes (value : Nat) : Nat := bits value / 8 - 2

theorem setCompact_short (hpos : 0 < value) (hlt : value < 2 ^ 16) :
    setCompact (getCompact unbounded value) =
      { target := value, fNegative := false, fOverflow := false } := by
  obtain ⟨hone, -, hlow, hhigh⟩ := size_bounds hpos (by omega)
  have hsize : (bits value + 7) / 8 = 1 ∨ (bits value + 7) / 8 = 2 := by
    by_contra hnot
    have hpow : 2 ^ 16 ≤ 2 ^ (8 * ((bits value + 7) / 8 - 1)) :=
      Nat.pow_le_pow_right (by decide) (by omega)
    omega
  unfold getCompact
  simp only [leadingBytes_unbounded]
  rcases hsize with hsize | hsize
  · rw [hsize] at hhigh
    simp only [hsize, Nat.one_le_ofNat, if_true]
    split
    · rw [setCompact_small (by omega) (by decide), Decoded.mk.injEq]
      exact ⟨by omega, rfl, rfl⟩
    · rw [setCompact_small (by omega) (by decide), Decoded.mk.injEq]
      exact ⟨by omega, rfl, rfl⟩
  · have hsmall : (2 : Nat) ≤ 3 := by decide
    simp only [hsize, hsmall, if_true]
    split
    · rw [setCompact_small (by omega) (by decide), Decoded.mk.injEq]
      exact ⟨by omega, rfl, rfl⟩
    · rw [setCompact_small (by omega) (by decide), Decoded.mk.injEq]
      exact ⟨by omega, rfl, rfl⟩

theorem setCompact_leading {leading exponent : Nat} (hlow : 2 ^ 16 ≤ leading)
    (hhigh : leading < 2 ^ 24) (hexponent : exponent ≤ 29)
    (hfits : leading * 2 ^ (8 * exponent) < 2 ^ 256) :
    setCompact (if leading / 2 ^ 23 % 2 = 1 then leading / 2 ^ 8 + (exponent + 3 + 1) * 2 ^ 24
      else leading + (exponent + 3) * 2 ^ 24) =
      { target := if leading / 2 ^ 23 % 2 = 1 then leading / 2 ^ 8 * 2 ^ (8 * (exponent + 1))
          else leading * 2 ^ (8 * exponent)
        fNegative := false
        fOverflow := false } := by
  by_cases hsign : leading / 2 ^ 23 % 2 = 1
  · have hdropped : leading / 2 ^ 8 * 2 ^ (8 * (exponent + 1)) < 2 ^ 256 := by
      rw [Nat.mul_add, Nat.add_comm, Nat.pow_add, ← Nat.mul_assoc]
      exact lt_of_le_of_lt (Nat.mul_le_mul_right _ (Nat.div_mul_le_self leading (2 ^ 8))) hfits
    rw [if_pos hsign, if_pos hsign,
      setCompact_large (by omega) (by omega) (by omega) (Or.inl (by omega)),
      show exponent + 3 + 1 - 3 = exponent + 1 by omega, Nat.mod_eq_of_lt hdropped]
  · rw [if_neg hsign, if_neg hsign]
    cases exponent with
    | zero =>
      rw [setCompact_small (by omega) (by omega)]
      simp
    | succ exponent =>
      rw [setCompact_large (by omega) (by omega) (by omega) (Or.inr (by omega)),
        Nat.add_sub_cancel, Nat.mod_eq_of_lt hfits]

theorem setCompact_getCompact (hpos : 0 < value) (hlt : value < 2 ^ 256) :
    setCompact (getCompact unbounded value) =
      { target := truncate (2 ^ (8 * droppedBytes value)) value
        fNegative := false
        fOverflow := false } := by
  by_cases hshort : value < 2 ^ 16
  · have hbits : ¬ 16 < bits value := by
      rw [lt_bits_iff]
      omega
    have hnone : droppedBytes value = 0 := by
      unfold droppedBytes
      omega
    rw [setCompact_short hpos hshort, hnone, Nat.mul_zero, Nat.pow_zero, truncate_one]
  · obtain ⟨hone, hsize, hlow, hhigh⟩ := size_bounds hpos hlt
    have hbits : 16 < bits value := lt_bits_iff.mpr (by omega)
    obtain ⟨exponent, hexponent⟩ : ∃ exponent, (bits value + 7) / 8 = exponent + 3 :=
      ⟨(bits value + 7) / 8 - 3, by omega⟩
    rw [hexponent] at hlow hhigh hsize
    have hleading : leadingBytes unbounded (exponent + 3) value =
        value / 2 ^ (8 * exponent) := by
      rw [leadingBytes_unbounded]
      split
      case isTrue hsmall =>
        have hzero : exponent = 0 := by omega
        subst hzero
        simp
      case isFalse hlarge => rw [Nat.add_sub_cancel]
    have hleadingLow : 2 ^ 16 ≤ value / 2 ^ (8 * exponent) := by
      rw [Nat.le_div_iff_mul_le (Nat.two_pow_pos _), ← Nat.pow_add]
      refine le_trans (Nat.pow_le_pow_right (by decide) ?_) hlow
      omega
    have hleadingHigh : value / 2 ^ (8 * exponent) < 2 ^ 24 := by
      rw [← hleading]
      exact leadingBytes_lt hhigh
    have hsign : value / 2 ^ (8 * exponent) / 2 ^ 23 % 2 = 1 ↔ 8 * exponent + 23 < bits value := by
      rw [lt_bits_iff, Nat.add_comm, Nat.pow_add, ← Nat.le_div_iff_mul_le (Nat.two_pow_pos _)]
      omega
    have hdecoded := setCompact_leading hleadingLow hleadingHigh (by omega)
      (lt_of_le_of_lt (Nat.div_mul_le_self _ _) hlt)
    unfold getCompact
    simp only [hexponent, hleading]
    rw [hdecoded, Decoded.mk.injEq]
    refine ⟨?_, rfl, rfl⟩
    split
    · rename_i hset
      have hdropped : droppedBytes value = exponent + 1 := by
        have hmany := hsign.mp hset
        unfold droppedBytes
        omega
      rw [hdropped, truncate, Nat.div_div_eq_div_mul, ← Nat.pow_add, Nat.mul_succ]
    · rename_i hunset
      have hdropped : droppedBytes value = exponent := by
        have hfew := mt hsign.mpr hunset
        unfold droppedBytes
        omega
      rw [hdropped, truncate]

theorem decodesWithin_getCompact (hpos : 0 < value) (hlt : value < 2 ^ 256) :
    DecodesWithin (setCompact (getCompact unbounded value)) value := by
  have hunit : 2 ^ (8 * droppedBytes value) ≤ value := by
    by_cases hnone : droppedBytes value = 0
    · rw [hnone]
      omega
    · refine lt_bits_iff.mp ?_
      unfold droppedBytes at hnone ⊢
      omega
  rw [setCompact_getCompact hpos hlt]
  exact ⟨rfl, rfl, lt_of_lt_of_le (Nat.two_pow_pos _) (le_truncate_of_dvd dvd_rfl hunit),
    truncate_le _ _⟩

theorem setCompact_getCompact_mono {larger : Nat} (hpos : 0 < value) (hle : value ≤ larger)
    (hlt : larger < 2 ^ 256) :
    (setCompact (getCompact unbounded value)).target ≤
      (setCompact (getCompact unbounded larger)).target := by
  let start : Nat → Nat := fun dropped => if dropped = 0 then 0 else 2 ^ (8 * dropped + 15)
  have hmonotone : Monotone (fun value => truncate (2 ^ (8 * droppedBytes value)) value) := by
    refine @truncate_monotone (fun dropped => 2 ^ (8 * dropped)) droppedBytes start ?_ ?_ ?_
    · intro dropped
      dsimp only [start]
      split
      · exact dvd_zero _
      · exact pow_dvd_pow 2 (by omega)
    · intro value
      dsimp only [start]
      split
      · exact Nat.zero_le value
      · refine lt_bits_iff.mp ?_
        unfold droppedBytes at *
        omega
    · intro value dropped hless
      dsimp only [start]
      rw [if_neg (by omega)]
      refine lt_of_lt_of_le (lt_two_pow_bits value) (Nat.pow_le_pow_right (by decide) ?_)
      unfold droppedBytes at hless
      omega
  rw [setCompact_getCompact hpos (lt_of_le_of_lt hle hlt),
    setCompact_getCompact (lt_of_lt_of_le hpos hle) hlt]
  exact hmonotone hle

example : getCompact machine (0xffff0 * 2 ^ 216) = 0x1e0ffff0 := by decide +kernel

end Kerrigan.Pow
