import Mathlib.Algebra.Order.BigOperators.Group.List
import Mathlib.Data.Int.Init
import Mathlib.Tactic.NormNum

/-!
# Integer widths

A formula over integers of fixed width is written once over an interface of conversions: every
result of an operation is converted to the type it is stored in.  `machine` reduces as the
hardware does, `unbounded` leaves values as they are.  A formula does not wrap where the two
give the same value; the rules below discharge one conversion each.  Where an overflow must
not happen at all, `checked64` has no value for it.
-/

namespace Kerrigan.Lib

/-- The conversions of results to the types they are stored in. -/
structure Width where
  /-- An unsigned integer of 256 bits. -/
  big : Nat → Nat
  int32 : Int → Int
  int64 : Int → Int
  uint32 : Int → Nat
  uint64 : Int → Nat

variable {value : Int}

namespace Width

/-- Values are kept modulo the size of their type. -/
def machine : Width where
  big := fun value => value % 2 ^ 256
  int32 := fun value => value.bmod (2 ^ 32)
  int64 := fun value => value.bmod (2 ^ 64)
  uint32 := fun value => (value % 2 ^ 32).toNat
  uint64 := fun value => (value % 2 ^ 64).toNat

/-- Values are kept as they are. -/
def unbounded : Width where
  big := id
  int32 := id
  int64 := id
  uint32 := Int.toNat
  uint64 := Int.toNat

@[simp] theorem unbounded_big (value : Nat) : unbounded.big value = value := rfl

@[simp] theorem unbounded_int32 (value : Int) : unbounded.int32 value = value := rfl

@[simp] theorem unbounded_int64 (value : Int) : unbounded.int64 value = value := rfl

@[simp] theorem unbounded_uint32 (value : Int) : unbounded.uint32 value = value.toNat := rfl

@[simp] theorem unbounded_uint64 (value : Int) : unbounded.uint64 value = value.toNat := rfl

theorem machine_big {value : Nat} (hvalue : value < 2 ^ 256) : machine.big value = value :=
  Nat.mod_eq_of_lt hvalue

theorem machine_int32 (hlow : -(2 ^ 31) ≤ value) (hhigh : value < 2 ^ 31) :
    machine.int32 value = value := by
  refine Int.bmod_eq_of_le ?_ ?_
  · omega
  · omega

/-- A difference may wrap on the way if what it ends in does not. -/
theorem machine_int32_sub (left right : Int) :
    machine.int32 (machine.int32 left - right) = machine.int32 (left - right) :=
  Int.bmod_sub_bmod

theorem machine_int64 (hlow : -(2 ^ 63) ≤ value) (hhigh : value < 2 ^ 63) :
    machine.int64 value = value := by
  refine Int.bmod_eq_of_le ?_ ?_
  · omega
  · omega

theorem machine_uint32 (hlow : 0 ≤ value) (hhigh : value < 2 ^ 32) :
    machine.uint32 value = value.toNat := by
  simp only [machine, Int.emod_eq_of_lt hlow hhigh]

theorem machine_uint64 (hlow : 0 ≤ value) (hhigh : value < 2 ^ 64) :
    machine.uint64 value = value.toNat := by
  simp only [machine, Int.emod_eq_of_lt hlow hhigh]

/-- A running sum of values that are not negative does not wrap if the whole sum fits. -/
theorem machine_foldl_int64 {values : List Int} {start : Int} (hstart : 0 ≤ start)
    (hnonneg : ∀ value ∈ values, 0 ≤ value) (hfits : start + values.sum < 2 ^ 63) :
    values.foldl (fun sum value => machine.int64 (sum + value)) start = start + values.sum := by
  induction values generalizing start with
  | nil => simp
  | cons value rest ih =>
    rw [List.forall_mem_cons] at hnonneg
    rw [List.sum_cons] at hfits ⊢
    have hrest : 0 ≤ rest.sum := List.sum_nonneg hnonneg.2
    have hvalue := hnonneg.1
    have hstep : machine.int64 (start + value) = start + value :=
      machine_int64 (by omega) (by omega)
    rw [List.foldl_cons, hstep, ih (by omega) hnonneg.2 (by omega)]
    omega

end Width

/-- A signed result of 64 bits; none if it overflows. -/
def checked64 (value : Int) : Option Int :=
  if -(2 ^ 63) ≤ value ∧ value < 2 ^ 63 then some value else none

theorem checked64_of_range (hlow : -(2 ^ 63) ≤ value) (hhigh : value < 2 ^ 63) :
    checked64 value = some value :=
  if_pos ⟨hlow, hhigh⟩

end Kerrigan.Lib
