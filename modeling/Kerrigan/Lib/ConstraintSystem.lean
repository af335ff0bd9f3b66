import Mathlib.Algebra.BigOperators.Group.List.Basic
import Mathlib.Algebra.Ring.Basic
import Mathlib.Data.List.GetD
import Mathlib.Tactic.Ring

/-!
# Rank-one constraint systems

A program allocates variables and enforces constraints of the form `a * b = c` between linear
combinations of them.  Only a prover evaluates the values that the program gives for its variables.
A variable that is allocated with a constraint for it is determined by the variables before it, so
every solution of the smaller system has one continuation.
-/

namespace Kerrigan.Lib

open List

/-- A public input, the first of which is the constant one, or an auxiliary variable. -/
inductive Variable where
  | input (index : Nat)
  | aux (index : Nat)
  deriving DecidableEq

def Variable.one : Variable := .input 0

variable (F : Type)

abbrev LinearCombination := List (Variable × F)

structure Constraint (F : Type) where
  a : LinearCombination F
  b : LinearCombination F
  c : LinearCombination F

inductive SynthesisError where
  | assignmentMissing
  deriving DecidableEq

/-- The variables with the values that a prover has for them, and the constraints. -/
structure ConstraintSystem (F : Type) where
  proving : Bool
  input : List (Option F) := []
  aux : List (Option F) := []
  constraints : List (Constraint F) := []

namespace ConstraintSystem

variable {F : Type} (cs : ConstraintSystem F) (known : Option F) (constraint : Constraint F)

def pushAux : ConstraintSystem F :=
  { cs with aux := cs.aux ++ [known] }

def pushInput : ConstraintSystem F :=
  { cs with input := cs.input ++ [known] }

def pushConstraint : ConstraintSystem F :=
  { cs with constraints := cs.constraints ++ [constraint] }

@[simp] theorem length_aux_pushAux : (cs.pushAux known).aux.length = cs.aux.length + 1 :=
  length_append

@[simp] theorem length_input_pushInput : (cs.pushInput known).input.length = cs.input.length + 1 :=
  length_append

@[simp] theorem input_pushAux : (cs.pushAux known).input = cs.input := rfl

@[simp] theorem aux_pushInput : (cs.pushInput known).aux = cs.aux := rfl

@[simp] theorem input_pushConstraint : (cs.pushConstraint constraint).input = cs.input := rfl

@[simp] theorem proving_pushAux : (cs.pushAux known).proving = cs.proving := rfl

@[simp] theorem proving_pushInput : (cs.pushInput known).proving = cs.proving := rfl

@[simp] theorem proving_pushConstraint : (cs.pushConstraint constraint).proving = cs.proving := rfl

@[simp] theorem aux_pushConstraint : (cs.pushConstraint constraint).aux = cs.aux := rfl

def nextAux : Variable := .aux cs.aux.length

def nextInput : Variable := .input (cs.input.length + 1)

end ConstraintSystem

abbrev Synthesis := StateT (ConstraintSystem F) (Except SynthesisError)

/-- A variable with its value, if there is one. -/
structure AllocatedNum (F : Type) where
  value : Option F
  var : Variable

open AllocatedNum

variable {var : Variable}

section Programs

variable {F : Type} (a b c : LinearCombination F) (proving : Bool) (value : Option F)

def recordValue : Except SynthesisError (Option F) :=
  if proving then
    match value with
    | none => .error .assignmentMissing
    | some known => .ok (some known)
  else .ok none

def AllocatedNum.alloc : Synthesis F (AllocatedNum F) := fun cs =>
  match recordValue cs.proving value with
  | .error reason => .error reason
  | .ok known => .ok (⟨known, cs.nextAux⟩, cs.pushAux known)

def allocInput : Synthesis F Variable := fun cs =>
  match recordValue cs.proving value with
  | .error reason => .error reason
  | .ok known => .ok (cs.nextInput, cs.pushInput known)

def enforce : Synthesis F Unit := fun cs =>
  .ok ((), cs.pushConstraint ⟨a, b, c⟩)

theorem synthesis_bind_eq_ok {α β : Type} {first : Synthesis F α} {next : α → Synthesis F β}
    {cs cs' : ConstraintSystem F} {result : β} :
    (first >>= next) cs = .ok (result, cs') ↔
      ∃ value middle, first cs = .ok (value, middle) ∧ next value middle = .ok (result, cs') := by
  simp only [bind, StateT.bind]
  cases first cs with
  | error reason => simp [Except.bind]
  | ok step =>
    obtain ⟨value, middle⟩ := step
    simp [Except.bind]

theorem synthesis_bind_of_ok {α β : Type} {first : Synthesis F α} {next : α → Synthesis F β}
    {cs middle : ConstraintSystem F} {value : α} (hfirst : first cs = .ok (value, middle)) :
    (first >>= next) cs = next value middle := by
  simp only [bind, StateT.bind, hfirst, Except.bind]

theorem synthesis_pure_eq_ok {α : Type} {value result : α} {cs cs' : ConstraintSystem F} :
    (pure value : Synthesis F α) cs = .ok (result, cs') ↔ value = result ∧ cs = cs' := by
  change Except.ok (value, cs) = Except.ok (result, cs') ↔ _
  rw [Except.ok.injEq, Prod.mk.injEq]

variable {value : Option F}

theorem alloc_eq_ok {cs cs' : ConstraintSystem F} {num : AllocatedNum F}
    (halloc : alloc value cs = .ok (num, cs')) :
    ∃ known, recordValue cs.proving value = .ok known ∧ num = ⟨known, cs.nextAux⟩ ∧
      cs' = cs.pushAux known := by
  unfold alloc at halloc
  split at halloc
  · cases halloc
  · rename_i known hknown
    cases halloc
    exact ⟨known, hknown, rfl, rfl⟩

theorem allocInput_eq_ok {cs cs' : ConstraintSystem F}
    (halloc : allocInput value cs = .ok (var, cs')) :
    ∃ known, recordValue cs.proving value = .ok known ∧
      var = cs.nextInput ∧ cs' = cs.pushInput known := by
  unfold allocInput at halloc
  split at halloc
  · cases halloc
  · rename_i known hknown
    cases halloc
    exact ⟨known, hknown, rfl, rfl⟩

def shown (value : F) : Option F := if proving then some value else none

theorem alloc_shown {known : F} {cs : ConstraintSystem F}
    (hvalue : cs.proving = true → value = some known) :
    alloc value cs =
      .ok (⟨shown cs.proving known, cs.nextAux⟩, cs.pushAux (shown cs.proving known)) := by
  unfold alloc recordValue shown
  cases hproving : cs.proving with
  | false => simp
  | true => simp [hvalue hproving]

theorem allocInput_shown {known : F} {cs : ConstraintSystem F}
    (hvalue : cs.proving = true → value = some known) :
    allocInput value cs = .ok (cs.nextInput, cs.pushInput (shown cs.proving known)) := by
  unfold allocInput recordValue shown
  cases hproving : cs.proving with
  | false => simp
  | true => simp [hvalue hproving]

theorem enforce_run (cs : ConstraintSystem F) :
    enforce a b c cs = .ok ((), cs.pushConstraint ⟨a, b, c⟩) := rfl

theorem enforce_eq_ok {a b c : LinearCombination F} {cs cs' : ConstraintSystem F} {done : Unit}
    (henforce : enforce a b c cs = .ok (done, cs')) : cs' = cs.pushConstraint ⟨a, b, c⟩ := by
  cases henforce
  rfl

end Programs

/-! ## Assignments -/

/-- Values of the public inputs after the constant one, and of the auxiliary variables. -/
@[ext] structure WireValues (F : Type) where
  input : List F
  aux : List F

namespace WireValues

variable {F : Type} (assignment : WireValues F)

def value [Zero F] [One F] : Variable → F
  | .input 0 => 1
  | .input (index + 1) => assignment.input.getD index 0
  | .aux index => assignment.aux.getD index 0

def eval [Semiring F] (combination : LinearCombination F) : F :=
  (combination.map (fun term => term.2 * assignment.value term.1)).sum

def append (more : WireValues F) : WireValues F :=
  ⟨assignment.input ++ more.input, assignment.aux ++ more.aux⟩

theorem append_assoc (first second third : WireValues F) :
    (first.append second).append third = first.append (second.append third) := by
  simp [append]

end WireValues

def Variable.Within (inputs auxiliaries : Nat) : Variable → Prop
  | .input index => index ≤ inputs
  | .aux index => index < auxiliaries

theorem Variable.Within.mono {inputs inputs' auxiliaries auxiliaries' : Nat}
    (hwithin : var.Within inputs auxiliaries) (hinput : inputs ≤ inputs')
    (haux : auxiliaries ≤ auxiliaries') : var.Within inputs' auxiliaries' := by
  cases var with
  | input index => exact Nat.le_trans hwithin hinput
  | aux index => exact Nat.lt_of_lt_of_le hwithin haux

/-- Only allocated variables occur. -/
def LinearCombination.Within {F : Type} (combination : LinearCombination F)
    (inputs auxiliaries : Nat) : Prop :=
  ∀ term ∈ combination, term.1.Within inputs auxiliaries

theorem LinearCombination.Within.mono {F : Type} {combination : LinearCombination F}
    {inputs inputs' auxiliaries auxiliaries' : Nat}
    (hwithin : combination.Within inputs auxiliaries) (hinput : inputs ≤ inputs')
    (haux : auxiliaries ≤ auxiliaries') : combination.Within inputs' auxiliaries' :=
  fun term hterm => Variable.Within.mono (hwithin term hterm) hinput haux

namespace ConstraintSystem

variable {F : Type} [CommRing F]

def Holds (assignment : WireValues F) (constraint : Constraint F) : Prop :=
  assignment.eval constraint.a * assignment.eval constraint.b = assignment.eval constraint.c

structure Solves (cs : ConstraintSystem F) (assignment : WireValues F) : Prop where
  input : assignment.input.length = cs.input.length
  aux : assignment.aux.length = cs.aux.length
  constraints : ∀ constraint ∈ cs.constraints, Holds assignment constraint

end ConstraintSystem

namespace ConstraintSystem

variable {F : Type}

def WellFormed (cs : ConstraintSystem F) : Prop :=
  ∀ constraint ∈ cs.constraints,
    constraint.a.Within cs.input.length cs.aux.length ∧
    constraint.b.Within cs.input.length cs.aux.length ∧
    constraint.c.Within cs.input.length cs.aux.length

variable {cs : ConstraintSystem F}

theorem WellFormed.pushAux (hformed : cs.WellFormed) (known : Option F) :
    (cs.pushAux known).WellFormed := by
  intro constraint hconstraint
  obtain ⟨ha, hb, hc⟩ := hformed constraint hconstraint
  exact ⟨ha.mono (Nat.le_refl _) (by simp), hb.mono (Nat.le_refl _) (by simp),
    hc.mono (Nat.le_refl _) (by simp)⟩

theorem WellFormed.pushInput (hformed : cs.WellFormed) (known : Option F) :
    (cs.pushInput known).WellFormed := by
  intro constraint hconstraint
  obtain ⟨ha, hb, hc⟩ := hformed constraint hconstraint
  exact ⟨ha.mono (by simp) (Nat.le_refl _), hb.mono (by simp) (Nat.le_refl _),
    hc.mono (by simp) (Nat.le_refl _)⟩

theorem WellFormed.pushConstraint (hformed : cs.WellFormed) {a b c : LinearCombination F}
    (ha : a.Within cs.input.length cs.aux.length) (hb : b.Within cs.input.length cs.aux.length)
    (hc : c.Within cs.input.length cs.aux.length) :
    (cs.pushConstraint ⟨a, b, c⟩).WellFormed := by
  intro constraint hconstraint
  rcases mem_append.mp hconstraint with hold | hlast
  · exact hformed constraint hold
  · rw [mem_singleton.mp hlast]
    exact ⟨ha, hb, hc⟩

end ConstraintSystem

namespace WireValues

variable {F : Type} [CommRing F] (more : WireValues F) (value : F)

theorem value_append {assignment : WireValues F}
    (hwithin : var.Within assignment.input.length assignment.aux.length) :
    (assignment.append more).value var = assignment.value var := by
  cases var with
  | input index =>
    cases index with
    | zero => rfl
    | succ index => exact getD_append _ _ _ _ hwithin
  | aux index => exact getD_append _ _ _ _ hwithin

theorem eval_append {assignment : WireValues F} {combination : LinearCombination F}
    (hwithin : combination.Within assignment.input.length assignment.aux.length) :
    (assignment.append more).eval combination = assignment.eval combination := by
  refine congrArg sum (map_congr_left ?_)
  intro term hterm
  rw [value_append more (hwithin term hterm)]

variable (assignment : WireValues F)

theorem value_append_aux :
    (assignment.append ⟨[], [value]⟩).value (.aux assignment.aux.length) = value := by
  simp [WireValues.value, append]

theorem value_append_input :
    (assignment.append ⟨[value], []⟩).value (.input (assignment.input.length + 1)) = value := by
  simp [WireValues.value, append]

@[simp] theorem eval_nil : assignment.eval [] = 0 := rfl

@[simp] theorem eval_cons (var : Variable) (coefficient : F) (rest : LinearCombination F) :
    assignment.eval ((var, coefficient) :: rest) =
      coefficient * assignment.value var + assignment.eval rest := by
  simp [eval]

@[simp] theorem value_one : assignment.value .one = 1 := rfl

end WireValues

/-! ## Solutions along a program -/

namespace ConstraintSystem

variable {F : Type} [CommRing F]

/-- The solutions of the later system are those of the earlier one, each with the values that the
function gives for the further variables. -/
structure Determines (cs cs' : ConstraintSystem F) (more : WireValues F → WireValues F) : Prop where
  wellFormed : cs'.WellFormed
  input_le : cs.input.length ≤ cs'.input.length
  aux_le : cs.aux.length ≤ cs'.aux.length
  solves_iff : ∀ assignment, cs'.Solves assignment ↔
    ∃ base, cs.Solves base ∧ assignment = base.append (more base)

variable {cs middle cs' : ConstraintSystem F} {more more' : WireValues F → WireValues F}
  {result result' : WireValues F → F}

theorem Determines.solves (hdetermines : Determines cs cs' more) {base : WireValues F}
    (hbase : cs.Solves base) :
    cs'.Solves (base.append (more base)) :=
  (hdetermines.solves_iff _).mpr ⟨base, hbase, rfl⟩

theorem Determines.trans {first second : WireValues F → WireValues F}
    (hfirst : Determines cs middle first) (hsecond : Determines middle cs' second) :
    Determines cs cs' (fun base => (first base).append (second (base.append (first base)))) := by
  refine ⟨hsecond.wellFormed, hfirst.input_le.trans hsecond.input_le,
    hfirst.aux_le.trans hsecond.aux_le, fun assignment => ?_⟩
  rw [hsecond.solves_iff]
  constructor
  · rintro ⟨reached, hreached, rfl⟩
    obtain ⟨base, hsolves, rfl⟩ := (hfirst.solves_iff reached).mp hreached
    exact ⟨base, hsolves, WireValues.append_assoc _ _ _⟩
  · rintro ⟨base, hsolves, rfl⟩
    exact ⟨_, hfirst.solves hsolves, (WireValues.append_assoc _ _ _).symm⟩

theorem Determines.congr (hdetermines : Determines cs cs' more)
    (hsame : ∀ base, cs.Solves base → more base = more' base) : Determines cs cs' more' := by
  refine ⟨hdetermines.wellFormed, hdetermines.input_le, hdetermines.aux_le, fun assignment => ?_⟩
  rw [hdetermines.solves_iff]
  refine exists_congr (fun base => and_congr_right (fun hbase => ?_))
  rw [hsame base hbase]

/-- The later system determines the further variables, and one of its variables holds a value that
the earlier ones determine. -/
structure Yields (cs cs' : ConstraintSystem F) (more : WireValues F → WireValues F)
    (var : Variable) (result : WireValues F → F) : Prop where
  determines : Determines cs cs' more
  within : var.Within cs'.input.length cs'.aux.length
  value : ∀ base, cs.Solves base → (base.append (more base)).value var = result base

theorem Determines.within (hdetermines : Determines cs cs' more)
    (hwithin : var.Within cs.input.length cs.aux.length) :
    var.Within cs'.input.length cs'.aux.length :=
  hwithin.mono hdetermines.input_le hdetermines.aux_le

theorem Yields.refl (hformed : cs.WellFormed) (hwithin : var.Within cs.input.length cs.aux.length) :
    Yields cs cs (fun _ => ⟨[], []⟩) var (fun base => base.value var) := by
  refine ⟨⟨hformed, Nat.le_refl _, Nat.le_refl _, fun assignment => ?_⟩, hwithin, ?_⟩
  · simp [WireValues.append]
  · intro base _
    simp [WireValues.append]

theorem Yields.trans {first second : WireValues F → WireValues F} {var var' : Variable}
    (hfirst : Yields cs middle first var result) (hsecond : Yields middle cs' second var' result') :
    Yields cs cs' (fun base => (first base).append (second (base.append (first base)))) var'
      (fun base => result' (base.append (first base))) := by
  refine ⟨hfirst.determines.trans hsecond.determines, hsecond.within, ?_⟩
  intro base hbase
  rw [← WireValues.append_assoc]
  exact hsecond.value _ (hfirst.determines.solves hbase)

theorem Yields.congr (hyields : Yields cs cs' more var result)
    (hmore : ∀ base, cs.Solves base → more base = more' base)
    (hresult : ∀ base, cs.Solves base → result base = result' base) :
    Yields cs cs' more' var result' := by
  refine ⟨hyields.determines.congr hmore, hyields.within, ?_⟩
  intro base hbase
  rw [← hmore base hbase, ← hresult base hbase]
  exact hyields.value base hbase

/-- The constraints do not see values for further variables. -/
theorem holds_append_iff (hformed : cs.WellFormed) {base : WireValues F}
    (hinput : base.input.length = cs.input.length) (haux : base.aux.length = cs.aux.length)
    (more : WireValues F) :
    (∀ constraint ∈ cs.constraints, Holds (base.append more) constraint) ↔ cs.Solves base := by
  have hsame : ∀ constraint ∈ cs.constraints,
      (Holds (base.append more) constraint ↔ Holds base constraint) := by
    intro constraint hconstraint
    obtain ⟨ha, hb, hc⟩ := hformed constraint hconstraint
    rw [← hinput, ← haux] at ha hb hc
    unfold Holds
    rw [WireValues.eval_append more ha, WireValues.eval_append more hb,
      WireValues.eval_append more hc]
  constructor
  · intro hholds
    exact ⟨hinput, haux, fun constraint hmem => (hsame constraint hmem).mp (hholds constraint hmem)⟩
  · intro hsolves constraint hmem
    exact (hsame constraint hmem).mpr (hsolves.constraints constraint hmem)

/-- A variable without a constraint may have any value. -/
theorem solves_pushAux_iff (hformed : cs.WellFormed) (known : Option F) (assignment : WireValues F)
    :
    (cs.pushAux known).Solves assignment ↔
      ∃ base value, cs.Solves base ∧ assignment = base.append ⟨[], [value]⟩ := by
  constructor
  · rintro ⟨hinput, haux, hholds⟩
    rw [length_aux_pushAux] at haux
    obtain ⟨front, value, hsplit⟩ : ∃ front value, assignment.aux = front ++ [value] :=
      ⟨_, _, (dropLast_append_getLast (ne_nil_of_length_eq_add_one haux)).symm⟩
    have hassignment : assignment = WireValues.append ⟨assignment.input, front⟩ ⟨[], [value]⟩ := by
      ext1
      · simp [WireValues.append]
      · exact hsplit
    have hfront : front.length = cs.aux.length := by
      simpa [hsplit] using haux
    rw [hassignment] at hholds
    have hsolves := (@holds_append_iff F _ cs hformed ⟨assignment.input, front⟩ hinput hfront _).mp
      hholds
    exact ⟨_, value, hsolves, hassignment⟩
  · rintro ⟨base, value, hsolves, rfl⟩
    refine ⟨?_, ?_, (holds_append_iff hformed hsolves.input hsolves.aux _).mpr hsolves⟩
    · simpa [WireValues.append] using hsolves.input
    · simp [WireValues.append, hsolves.aux]

theorem solves_pushInput_iff (hformed : cs.WellFormed) (known : Option F)
    (assignment : WireValues F) :
    (cs.pushInput known).Solves assignment ↔
      ∃ base value, cs.Solves base ∧ assignment = base.append ⟨[value], []⟩ := by
  constructor
  · rintro ⟨hinput, haux, hholds⟩
    rw [length_input_pushInput] at hinput
    obtain ⟨front, value, hsplit⟩ : ∃ front value, assignment.input = front ++ [value] :=
      ⟨_, _, (dropLast_append_getLast (ne_nil_of_length_eq_add_one hinput)).symm⟩
    have hassignment : assignment = WireValues.append ⟨front, assignment.aux⟩ ⟨[value], []⟩ := by
      ext1
      · exact hsplit
      · simp [WireValues.append]
    have hfront : front.length = cs.input.length := by
      simpa [hsplit] using hinput
    rw [hassignment] at hholds
    have hsolves := (@holds_append_iff F _ cs hformed ⟨front, assignment.aux⟩ hfront haux _).mp
      hholds
    exact ⟨_, value, hsolves, hassignment⟩
  · rintro ⟨base, value, hsolves, rfl⟩
    refine ⟨?_, ?_, (holds_append_iff hformed hsolves.input hsolves.aux _).mpr hsolves⟩
    · simp [WireValues.append, hsolves.input]
    · simpa [WireValues.append] using hsolves.aux

theorem solves_pushConstraint_iff {constraint : Constraint F} (assignment : WireValues F) :
    (cs.pushConstraint constraint).Solves assignment ↔
      cs.Solves assignment ∧ Holds assignment constraint := by
  constructor
  · rintro ⟨hinput, haux, hholds⟩
    exact ⟨⟨hinput, haux, fun old hmem => hholds old (mem_append_left _ hmem)⟩,
      hholds constraint (mem_append_right _ (mem_singleton_self _))⟩
  · rintro ⟨hsolves, hnew⟩
    refine ⟨hsolves.input, hsolves.aux, fun other hmem => ?_⟩
    rcases mem_append.mp hmem with hold | hlast
    · exact hsolves.constraints other hold
    · rw [mem_singleton.mp hlast]
      exact hnew

/-- A variable that is allocated and constrained to a product of earlier combinations. -/
theorem yields_product {known : Option F} {num : AllocatedNum F} {a b : LinearCombination F}
    {done : Unit} (hformed : cs.WellFormed) (halloc : alloc known cs = .ok (num, middle))
    (henforce : enforce a b [(num.var, 1)] middle = .ok (done, cs'))
    (ha : a.Within cs.input.length cs.aux.length) (hb : b.Within cs.input.length cs.aux.length) :
    Yields cs cs' (fun base => ⟨[], [base.eval a * base.eval b]⟩) num.var
      (fun base => base.eval a * base.eval b) := by
  obtain ⟨kept, -, rfl, rfl⟩ := alloc_eq_ok halloc
  obtain rfl := enforce_eq_ok henforce
  have hlast : ∀ base value, cs.Solves base →
      (base.append ⟨[], [value]⟩).value cs.nextAux = value := by
    intro base value hsolves
    rw [nextAux, ← hsolves.aux]
    exact base.value_append_aux value
  have hnext : cs.nextAux.Within (cs.pushAux kept).input.length (cs.pushAux kept).aux.length := by
    simp [nextAux, Variable.Within]
  have hholds : ∀ base value, cs.Solves base →
      (Holds (base.append ⟨[], [value]⟩) ⟨a, b, [(cs.nextAux, 1)]⟩ ↔
        base.eval a * base.eval b = value) := by
    intro base value hsolves
    rw [← hsolves.input, ← hsolves.aux] at ha hb
    unfold Holds
    rw [WireValues.eval_append _ ha, WireValues.eval_append _ hb]
    simp [hlast base value hsolves]
  refine ⟨⟨?_, Nat.le_refl _, ?_, fun assignment => ?_⟩, hnext, fun base hbase => hlast base _ hbase⟩
  · refine (hformed.pushAux kept).pushConstraint (ha.mono (Nat.le_refl _) (by simp))
      (hb.mono (Nat.le_refl _) (by simp)) ?_
    intro term hterm
    rw [mem_singleton.mp hterm]
    exact hnext
  · simp
  · rw [solves_pushConstraint_iff, solves_pushAux_iff hformed]
    constructor
    · rintro ⟨⟨base, value, hsolves, rfl⟩, hnew⟩
      refine ⟨base, hsolves, ?_⟩
      rw [(hholds base value hsolves).mp hnew]
    · rintro ⟨base, hsolves, rfl⟩
      exact ⟨⟨base, _, hsolves, rfl⟩, (hholds base _ hsolves).mpr rfl⟩

/-- A public input that is allocated and constrained to an earlier variable. -/
theorem determines_input {known : Option F} {input var : Variable} {done : Unit}
    (hformed : cs.WellFormed) (halloc : allocInput known cs = .ok (input, middle))
    (henforce : enforce [(input, 1)] [(.one, 1)] [(var, 1)] middle = .ok (done, cs'))
    (hwithin : var.Within cs.input.length cs.aux.length) :
    Determines cs cs' (fun base => ⟨[base.value var], []⟩) := by
  obtain ⟨kept, -, rfl, rfl⟩ := allocInput_eq_ok halloc
  obtain rfl := enforce_eq_ok henforce
  have hholds : ∀ base value, cs.Solves base →
      (Holds (base.append ⟨[value], []⟩) ⟨[(cs.nextInput, 1)], [(.one, 1)], [(var, 1)]⟩ ↔
        value = base.value var) := by
    intro base value hsolves
    have hlast : (base.append ⟨[value], []⟩).value cs.nextInput = value := by
      rw [nextInput, ← hsolves.input]
      exact base.value_append_input value
    rw [← hsolves.input, ← hsolves.aux] at hwithin
    simp [Holds, hlast, WireValues.value_append _ hwithin]
  refine ⟨?_, ?_, Nat.le_refl _, fun assignment => ?_⟩
  · refine (hformed.pushInput kept).pushConstraint ?_ ?_ ?_
    · intro term hterm
      rw [mem_singleton.mp hterm]
      simp [nextInput, Variable.Within]
    · intro term hterm
      rw [mem_singleton.mp hterm]
      exact Nat.zero_le _
    · intro term hterm
      rw [mem_singleton.mp hterm]
      exact hwithin.mono (by simp) (Nat.le_refl _)
  · simp
  · rw [solves_pushConstraint_iff, solves_pushInput_iff hformed]
    constructor
    · rintro ⟨⟨base, value, hsolves, rfl⟩, hnew⟩
      refine ⟨base, hsolves, ?_⟩
      rw [(hholds base value hsolves).mp hnew]
    · rintro ⟨base, hsolves, rfl⟩
      exact ⟨⟨base, _, hsolves, rfl⟩, (hholds base _ hsolves).mpr rfl⟩

end ConstraintSystem

end Kerrigan.Lib
