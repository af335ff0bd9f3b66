import Kerrigan.Lib.ConstraintSystem

/-!
# The participation circuit

`HMPCircuit::synthesize` with its MiMC gadget, and the commitment as it is computed outside the
circuit.  The two operations on allocated numbers that the circuit takes from the proving library are
a parameter.
-/

namespace Kerrigan.HMP

open Lib AllocatedNum List WireValues

variable {F : Type} [CommRing F]

/-! ## The commitment outside the circuit -/

def mimcRound (x c : F) : F :=
  let t := x + c
  t * t * t

variable (constants : List F) (sk blockHash chainState : F)

def mimcPlain (input : F) : F := constants.foldl mimcRound input

def computeCommitment : F :=
  let inner := sk * blockHash
  let mixed := inner + chainState
  mimcPlain constants mixed

def mimcRounds : Nat := 91

/-- `mimc_constants`: the index of the round and the domain separator "SCP" in little endian. -/
def mimcConstants : List F :=
  (range mimcRounds).map (fun i => ((i + (0x53 + 0x43 * 2 ^ 8 + 0x50 * 2 ^ 16) * 2 ^ 64 : Nat) : F))

/-! ## The circuit -/

/-- The operations on allocated numbers that the circuit takes from the proving library. -/
structure NumGadgets (F : Type) where
  mul : AllocatedNum F → AllocatedNum F → Synthesis F (AllocatedNum F)
  inputize : AllocatedNum F → Synthesis F Unit

/-- What the library documents of them: the product is a new variable that is constrained to it, and
a number is exposed through a new public input that is constrained to it. -/
structure NumGadgets.Documented (gadgets : NumGadgets F) : Prop where
  mul : ∀ a b : AllocatedNum F, gadgets.mul a b = do
    let product ← alloc (do return (← a.value) * (← b.value))
    enforce [(a.var, 1)] [(b.var, 1)] [(product.var, 1)]
    return product
  inputize : ∀ a : AllocatedNum F, gadgets.inputize a = do
    let input ← allocInput a.value
    enforce [(input, 1)] [(.one, 1)] [(a.var, 1)]

open NumGadgets.Documented

/-- `HMPCircuit`; a key is generated without values. -/
structure HMPCircuit (F : Type) where
  skScalar : Option F
  blockHash : Option F
  chainStateHash : Option F

def mimcGadget : AllocatedNum F → List F → Synthesis F (AllocatedNum F)
  | xl, [] => pure xl
  | xl, c :: rest => do
      let sq ← alloc (xl.value.map (fun x =>
        let t := x + c
        t * t))
      enforce [(xl.var, 1), (.one, c)] [(xl.var, 1), (.one, c)] [(sq.var, 1)]
      let cube ← alloc (xl.value.map (fun x =>
        let t := x + c
        t * t * t))
      enforce [(sq.var, 1)] [(xl.var, 1), (.one, c)] [(cube.var, 1)]
      mimcGadget cube rest

def HMPCircuit.synthesize (gadgets : NumGadgets F) (constants : List F) (circuit : HMPCircuit F) :
    Synthesis F Unit := do
  let sk ← alloc circuit.skScalar
  let blockHash ← alloc circuit.blockHash
  gadgets.inputize blockHash
  let chainState ← alloc circuit.chainStateHash
  let inner ← gadgets.mul sk blockHash
  let mixed ← alloc (do return (← inner.value) + (← chainState.value))
  enforce [(inner.var, 1), (chainState.var, 1)] [(.one, 1)] [(mixed.var, 1)]
  let result ← mimcGadget mixed constants
  gadgets.inputize result

/-! ## Solutions of the gadget -/

/-- The values of the variables that the gadget allocates. -/
def mimcTrace : List F → F → List F
  | [], _ => []
  | c :: rest, x => (x + c) * (x + c) :: mimcRound x c :: mimcTrace rest (mimcRound x c)

section Gadget

open ConstraintSystem

theorem within_shifted {cs : ConstraintSystem F} {var : Variable} (c : F)
    (hwithin : var.Within cs.input.length cs.aux.length) :
    LinearCombination.Within [(var, 1), (.one, c)] cs.input.length cs.aux.length := by
  intro term hterm
  rcases mem_cons.mp hterm with rfl | hone
  · exact hwithin
  · rw [mem_singleton.mp hone]
    exact Nat.zero_le _

theorem within_single {cs : ConstraintSystem F} {var : Variable}
    (hwithin : var.Within cs.input.length cs.aux.length) :
    LinearCombination.Within [(var, (1 : F))] cs.input.length cs.aux.length := by
  intro term hterm
  rw [mem_singleton.mp hterm]
  exact hwithin

theorem yields_round {cs first second third cs' : ConstraintSystem F} {xl sq cube : AllocatedNum F}
    {known known' : Option F} {c : F} {done done' : Unit} (hformed : cs.WellFormed)
    (hwithin : xl.var.Within cs.input.length cs.aux.length)
    (hsq : alloc known cs = .ok (sq, first))
    (hsquare : enforce [(xl.var, 1), (.one, c)] [(xl.var, 1), (.one, c)] [(sq.var, 1)] first =
      .ok (done, second))
    (hcube : alloc known' second = .ok (cube, third))
    (hcubed : enforce [(sq.var, 1)] [(xl.var, 1), (.one, c)] [(cube.var, 1)] third =
      .ok (done', cs')) :
    Yields cs cs'
      (fun base => ⟨[], [(base.value xl.var + c) * (base.value xl.var + c),
        mimcRound (base.value xl.var) c]⟩) cube.var
      (fun base => mimcRound (base.value xl.var) c) := by
  have hsqYields := yields_product hformed hsq hsquare (within_shifted c hwithin)
    (within_shifted c hwithin)
  have hcubeYields := yields_product hsqYields.determines.wellFormed hcube hcubed
    (within_single hsqYields.within) (within_shifted c (hsqYields.determines.within hwithin))
  have hshifted : ∀ assignment : WireValues F,
      assignment.eval [(xl.var, 1), (.one, c)] = assignment.value xl.var + c := by
    intro assignment
    simp
  -- The square is read back from its variable, the input from the variable before it.
  have hproduct : ∀ base, cs.Solves base →
      (base.append ⟨[], [base.eval [(xl.var, 1), (.one, c)] *
          base.eval [(xl.var, 1), (.one, c)]]⟩).eval [(sq.var, 1)] *
        (base.append ⟨[], [base.eval [(xl.var, 1), (.one, c)] *
          base.eval [(xl.var, 1), (.one, c)]]⟩).eval [(xl.var, 1), (.one, c)] =
      mimcRound (base.value xl.var) c := by
    intro base hbase
    have hread := hsqYields.value base hbase
    rw [← hbase.input, ← hbase.aux] at hwithin
    rw [eval_cons, hread, hshifted, hshifted, value_append _ hwithin]
    simp [mimcRound]
  refine (hsqYields.trans hcubeYields).congr ?_ hproduct
  intro base hbase
  rw [hproduct base hbase, hshifted]
  rfl

theorem yields_mimcGadget {constants : List F} {xl result : AllocatedNum F}
    {cs cs' : ConstraintSystem F} (hformed : cs.WellFormed)
    (hwithin : xl.var.Within cs.input.length cs.aux.length)
    (hgadget : mimcGadget xl constants cs = .ok (result, cs')) :
    Yields cs cs' (fun base => ⟨[], mimcTrace constants (base.value xl.var)⟩) result.var
      (fun base => mimcPlain constants (base.value xl.var)) := by
  induction constants generalizing xl cs with
  | nil =>
    obtain ⟨rfl, rfl⟩ := synthesis_pure_eq_ok.mp hgadget
    exact Yields.refl hformed hwithin
  | cons c rest ih =>
    rw [mimcGadget] at hgadget
    simp only [synthesis_bind_eq_ok] at hgadget
    obtain ⟨sq, first, hsq, done, second, hsquare, cube, third, hcube, done', fourth, hcubed,
      hrest⟩ := hgadget
    have hround := yields_round hformed hwithin hsq hsquare hcube hcubed
    have hrestYields := ih hround.determines.wellFormed hround.within hrest
    refine (hround.trans hrestYields).congr ?_ ?_
    · intro base hbase
      rw [hround.value base hbase]
      rfl
    · intro base hbase
      rw [hround.value base hbase]
      rfl

theorem mimcGadget_run {x : F} {xl : AllocatedNum F} (constants : List F) (cs : ConstraintSystem F)
    (hxl : xl.value = shown cs.proving x) :
    ∃ result cs', mimcGadget xl constants cs = .ok (result, cs') ∧
      result.value = shown cs.proving (mimcPlain constants x) ∧ cs'.proving = cs.proving ∧
      cs'.input = cs.input ∧
      cs'.aux = cs.aux ++ (mimcTrace constants x).map (shown cs.proving) := by
  induction constants generalizing x xl cs with
  | nil => exact ⟨xl, cs, rfl, hxl, rfl, rfl, by simp [mimcTrace]⟩
  | cons c rest ih =>
    have hmap : ∀ f : F → F, cs.proving = true → xl.value.map f = some (f x) := by
      intro f hproving
      rw [hxl, shown, if_pos hproving]
      rfl
    let first := (cs.pushAux (shown cs.proving ((x + c) * (x + c)))).pushConstraint
      ⟨[(xl.var, 1), (.one, c)], [(xl.var, 1), (.one, c)], [(cs.nextAux, 1)]⟩
    let second := (first.pushAux (shown cs.proving (mimcRound x c))).pushConstraint
      ⟨[(cs.nextAux, 1)], [(xl.var, 1), (.one, c)], [(first.nextAux, 1)]⟩
    have hround : mimcGadget xl (c :: rest) cs =
        mimcGadget ⟨shown cs.proving (mimcRound x c), first.nextAux⟩ rest second := by
      have hcube : alloc (xl.value.map (fun x => (x + c) * (x + c) * (x + c))) first =
          .ok (⟨shown cs.proving (mimcRound x c), first.nextAux⟩,
            first.pushAux (shown cs.proving (mimcRound x c))) :=
        @alloc_shown F _ _ first (hmap _)
      rw [mimcGadget, synthesis_bind_of_ok (alloc_shown (hmap _)),
        synthesis_bind_of_ok (enforce_run _ _ _ _), synthesis_bind_of_ok hcube,
        synthesis_bind_of_ok (enforce_run _ _ _ _)]
    obtain ⟨result, cs', hrun, hresult, hproving, hinput, haux⟩ :=
      @ih (mimcRound x c) ⟨shown cs.proving (mimcRound x c), first.nextAux⟩ second rfl
    refine ⟨result, cs', hround.trans hrun, hresult, hproving, hinput, ?_⟩
    rw [haux]
    simp [second, first, mimcTrace, ConstraintSystem.pushAux, ConstraintSystem.pushConstraint]

end Gadget

/-! ## Solutions of the circuit -/

def skVariable : Variable := .aux 0

def chainStateVariable : Variable := .aux 2

def circuitAssignment : WireValues F where
  input := [blockHash, computeCommitment constants sk blockHash chainState]
  aux := [sk, blockHash, chainState, sk * blockHash, sk * blockHash + chainState] ++
    mimcTrace constants (sk * blockHash + chainState)

section Circuit

open ConstraintSystem

variable {gadgets : NumGadgets F} {constants : List F} {circuit : HMPCircuit F}

theorem solves_empty_iff (proving : Bool) (assignment : WireValues F) :
    Solves ({ proving := proving } : ConstraintSystem F) assignment ↔ assignment = ⟨[], []⟩ := by
  constructor
  · rintro ⟨hinput, haux, -⟩
    ext1
    · exact eq_nil_of_length_eq_zero hinput
    · exact eq_nil_of_length_eq_zero haux
  · rintro rfl
    exact ⟨rfl, rfl, fun _ hmem => absurd hmem not_mem_nil⟩

theorem solves_inputs {proving : Bool} {known known' known'' exposed : Option F}
    {sk blockHash chainState : AllocatedNum F} {input : Variable} {done : Unit}
    {cs₁ cs₂ cs₂' cs₃ cs : ConstraintSystem F}
    (hsk : alloc known { proving := proving } = .ok (sk, cs₁))
    (hblock : alloc known' cs₁ = .ok (blockHash, cs₂))
    (hinput : allocInput exposed cs₂ = .ok (input, cs₂'))
    (hexposed : enforce [(input, 1)] [(.one, 1)] [(blockHash.var, 1)] cs₂' = .ok (done, cs₃))
    (hchain : alloc known'' cs₃ = .ok (chainState, cs)) :
    cs.WellFormed ∧ (sk.var = .aux 0 ∧ blockHash.var = .aux 1 ∧ chainState.var = .aux 2) ∧
      (cs.input.length = 1 ∧ cs.aux.length = 3) ∧
      ∀ assignment, cs.Solves assignment ↔ ∃ sk blockHash chainState,
        assignment = ⟨[blockHash], [sk, blockHash, chainState]⟩ := by
  obtain ⟨kept, -, rfl, rfl⟩ := alloc_eq_ok hsk
  obtain ⟨kept', -, rfl, rfl⟩ := alloc_eq_ok hblock
  have hempty : WellFormed ({ proving := proving } : ConstraintSystem F) :=
    fun _ hmem => absurd hmem not_mem_nil
  have hformed := (hempty.pushAux kept).pushAux kept'
  have hdetermines := determines_input hformed hinput hexposed (by simp [nextAux, Variable.Within])
  obtain ⟨kept₂, -, rfl, rfl⟩ := allocInput_eq_ok hinput
  obtain rfl := enforce_eq_ok hexposed
  obtain ⟨kept'', -, rfl, rfl⟩ := alloc_eq_ok hchain
  refine ⟨hdetermines.wellFormed.pushAux kept'', ⟨rfl, rfl, rfl⟩, ⟨rfl, rfl⟩, fun assignment => ?_⟩
  rw [solves_pushAux_iff hdetermines.wellFormed]
  constructor
  · rintro ⟨base, chainState, hbase, rfl⟩
    obtain ⟨base₂, hbase₂, rfl⟩ := (hdetermines.solves_iff base).mp hbase
    obtain ⟨base₁, blockHash, hbase₁, rfl⟩ :=
      (solves_pushAux_iff (hempty.pushAux kept) kept' base₂).mp hbase₂
    obtain ⟨base₀, sk, hbase₀, rfl⟩ := (solves_pushAux_iff hempty kept base₁).mp hbase₁
    obtain rfl := (solves_empty_iff proving base₀).mp hbase₀
    exact ⟨sk, blockHash, chainState, rfl⟩
  · rintro ⟨sk, blockHash, chainState, rfl⟩
    have hbase₁ := (solves_pushAux_iff hempty kept _).mpr
      ⟨_, sk, (solves_empty_iff proving _).mpr rfl, rfl⟩
    have hbase₂ := (solves_pushAux_iff (hempty.pushAux kept) kept' _).mpr ⟨_, blockHash, hbase₁, rfl⟩
    exact ⟨_, chainState, hdetermines.solves hbase₂, rfl⟩

theorem determines_commitment {known known' exposed : Option F}
    {sk blockHash chainState inner mixed result : AllocatedNum F} {input : Variable}
    {done done' done'' : Unit} {cs cs₁ cs₂ cs₃ cs₄ cs₅ cs₆ cs' : ConstraintSystem F}
    (hformed : cs.WellFormed) (hskWithin : sk.var.Within cs.input.length cs.aux.length)
    (hblockWithin : blockHash.var.Within cs.input.length cs.aux.length)
    (hchainWithin : chainState.var.Within cs.input.length cs.aux.length)
    (hproduct : alloc known cs = .ok (inner, cs₁))
    (hmul : enforce [(sk.var, 1)] [(blockHash.var, 1)] [(inner.var, 1)] cs₁ = .ok (done, cs₂))
    (hmixed : alloc known' cs₂ = .ok (mixed, cs₃))
    (hmix : enforce [(inner.var, 1), (chainState.var, 1)] [(.one, 1)] [(mixed.var, 1)] cs₃ =
      .ok (done', cs₄))
    (hgadget : mimcGadget mixed constants cs₄ = .ok (result, cs₅))
    (hinput : allocInput exposed cs₅ = .ok (input, cs₆))
    (hexposed : enforce [(input, 1)] [(.one, 1)] [(result.var, 1)] cs₆ = .ok (done'', cs')) :
    Determines cs cs' (fun base =>
      let inner := base.value sk.var * base.value blockHash.var
      let mixed := inner + base.value chainState.var
      ⟨[mimcPlain constants mixed], [inner, mixed] ++ mimcTrace constants mixed⟩) := by
  have hinner : Yields cs cs₂
      (fun base => ⟨[], [base.value sk.var * base.value blockHash.var]⟩) inner.var
      (fun base => base.value sk.var * base.value blockHash.var) := by
    refine (yields_product hformed hproduct hmul (within_single hskWithin)
      (within_single hblockWithin)).congr ?_ ?_ <;> simp
  have hsum : LinearCombination.Within [(inner.var, (1 : F)), (chainState.var, 1)] cs₂.input.length
      cs₂.aux.length := by
    intro term hterm
    rcases mem_cons.mp hterm with rfl | hlast
    · exact hinner.within
    · rw [mem_singleton.mp hlast]
      exact hinner.determines.within hchainWithin
  have hsecond := yields_product hinner.determines.wellFormed hmixed hmix hsum
    (within_single (Nat.zero_le _))
  have hmixedValue : ∀ base, cs.Solves base →
      (base.append ⟨[], [base.value sk.var * base.value blockHash.var]⟩).eval
          [(inner.var, 1), (chainState.var, 1)] *
        (base.append ⟨[], [base.value sk.var * base.value blockHash.var]⟩).eval [(.one, 1)] =
      base.value sk.var * base.value blockHash.var + base.value chainState.var := by
    intro base hbase
    have hread := hinner.value base hbase
    have hkept : chainState.var.Within base.input.length base.aux.length := by
      rw [hbase.input, hbase.aux]
      exact hchainWithin
    simp [hread, value_append, hkept]
  have hmiddle : Yields cs cs₄
      (fun base => ⟨[], [base.value sk.var * base.value blockHash.var,
        base.value sk.var * base.value blockHash.var + base.value chainState.var]⟩) mixed.var
      (fun base => base.value sk.var * base.value blockHash.var + base.value chainState.var) := by
    refine (hinner.trans hsecond).congr ?_ hmixedValue
    intro base hbase
    rw [hmixedValue base hbase]
    rfl
  have hpermuted := yields_mimcGadget hmiddle.determines.wellFormed hmiddle.within hgadget
  have hresult := hmiddle.trans hpermuted
  have hlast := determines_input hpermuted.determines.wellFormed hinput hexposed hpermuted.within
  refine (hresult.determines.trans hlast).congr ?_
  intro base hbase
  rw [hresult.value base hbase, hmiddle.value base hbase]
  simp [append]

section

variable (hgadgets : gadgets.Documented)

include hgadgets

/-- The satisfying assignments of the circuit are exactly those that some private inputs and some block
determine. -/
theorem synthesize_solves_iff {proving : Bool} {cs : ConstraintSystem F}
    (hsynthesize : circuit.synthesize gadgets constants { proving := proving } = .ok ((), cs))
    (assignment : WireValues F) :
    cs.Solves assignment ↔ ∃ sk blockHash chainState,
      assignment = circuitAssignment constants sk blockHash chainState := by
  unfold HMPCircuit.synthesize at hsynthesize
  simp only [hgadgets.mul, hgadgets.inputize, synthesis_bind_eq_ok] at hsynthesize
  obtain ⟨sk, cs₁, hsk, block, cs₂, hblock, done, cs₃, ⟨input, cs₃', hinput, hexposed⟩, chain, cs₄,
    hchain, inner, cs₅, ⟨product, cs₅', hproduct, done₂, cs₅'', hmul, hpure⟩, mixed, cs₆, hmixed,
    done₃, cs₇, hmix, result, cs₈, hgadget, input', cs₉, hinput', hexposed'⟩ := hsynthesize
  obtain ⟨rfl, rfl⟩ := synthesis_pure_eq_ok.mp hpure
  obtain ⟨hformed, ⟨hskVar, hblockVar, hchainVar⟩, ⟨hinputs, hauxiliaries⟩, hinputsSolve⟩ :=
    solves_inputs hsk hblock hinput hexposed hchain
  have hwithin : ∀ index, index < 3 → (Variable.aux index).Within cs₄.input.length cs₄.aux.length := by
    intro index hindex
    rw [hauxiliaries]
    exact hindex
  have hdetermines := determines_commitment hformed (hskVar ▸ hwithin 0 (by decide))
    (hblockVar ▸ hwithin 1 (by decide)) (hchainVar ▸ hwithin 2 (by decide)) hproduct hmul hmixed hmix
    hgadget hinput' hexposed'
  rw [hskVar, hblockVar, hchainVar] at hdetermines
  rw [hdetermines.solves_iff]
  constructor
  · rintro ⟨base, hbase, rfl⟩
    obtain ⟨sk, blockHash, chainState, rfl⟩ := (hinputsSolve base).mp hbase
    exact ⟨sk, blockHash, chainState, rfl⟩
  · rintro ⟨sk, blockHash, chainState, rfl⟩
    exact ⟨_, (hinputsSolve _).mpr ⟨sk, blockHash, chainState, rfl⟩, rfl⟩

theorem NumGadgets.Documented.inputize_run {num : AllocatedNum F}
    {known : F} {cs : ConstraintSystem F} (hvalue : cs.proving = true → num.value = some known) :
    gadgets.inputize num cs = .ok ((), (cs.pushInput (shown cs.proving known)).pushConstraint
      ⟨[(cs.nextInput, 1)], [(.one, 1)], [(num.var, 1)]⟩) := by
  rw [hgadgets.inputize, synthesis_bind_of_ok (allocInput_shown hvalue), enforce_run]

theorem NumGadgets.Documented.mul_run {a b : AllocatedNum F}
    {known known' : F} {cs : ConstraintSystem F} (ha : cs.proving = true → a.value = some known)
    (hb : cs.proving = true → b.value = some known') :
    gadgets.mul a b cs = .ok (⟨shown cs.proving (known * known'), cs.nextAux⟩,
      (cs.pushAux (shown cs.proving (known * known'))).pushConstraint
        ⟨[(a.var, 1)], [(b.var, 1)], [(cs.nextAux, 1)]⟩) := by
  have hvalue : cs.proving = true →
      (do return (← a.value) * (← b.value) : Option F) = some (known * known') := by
    intro hproving
    rw [ha hproving, hb hproving]
    rfl
  rw [hgadgets.mul, synthesis_bind_of_ok (alloc_shown hvalue),
    synthesis_bind_of_ok (enforce_run _ _ _ _)]
  rfl

theorem synthesize_run {proving : Bool} {sk blockHash chainState : F}
    (hvalues : proving = true → circuit = ⟨some sk, some blockHash, some chainState⟩) :
    ∃ cs, circuit.synthesize gadgets constants { proving := proving } = .ok ((), cs) ∧
      cs.input = (circuitAssignment constants sk blockHash chainState).input.map (shown proving) ∧
      cs.aux = (circuitAssignment constants sk blockHash chainState).aux.map (shown proving) := by
  have hshown : ∀ value : F, proving = true → shown proving value = some value := by
    intro value hproving
    rw [shown, if_pos hproving]
  have hsum : proving = true → (do return (← shown proving (sk * blockHash)) +
      (← shown proving chainState) : Option F) = some (sk * blockHash + chainState) := by
    intro hproving
    rw [hshown _ hproving, hshown _ hproving]
    rfl
  -- The systems before each statement of the function, in its order.
  let cs₀ : ConstraintSystem F := { proving := proving }
  let cs₁ := cs₀.pushAux (shown proving sk)
  let cs₂ := cs₁.pushAux (shown proving blockHash)
  let cs₃ := (cs₂.pushInput (shown proving blockHash)).pushConstraint
    ⟨[(cs₂.nextInput, 1)], [(.one, 1)], [(cs₁.nextAux, 1)]⟩
  let cs₄ := cs₃.pushAux (shown proving chainState)
  let cs₅ := (cs₄.pushAux (shown proving (sk * blockHash))).pushConstraint
    ⟨[(cs₀.nextAux, 1)], [(cs₁.nextAux, 1)], [(cs₄.nextAux, 1)]⟩
  let cs₆ := (cs₅.pushAux (shown proving (sk * blockHash + chainState))).pushConstraint
    ⟨[(cs₄.nextAux, 1), (cs₃.nextAux, 1)], [(.one, 1)], [(cs₅.nextAux, 1)]⟩
  have hsk := @alloc_shown F circuit.skScalar sk cs₀ (fun hproving => by rw [hvalues hproving])
  have hblock := @alloc_shown F circuit.blockHash blockHash cs₁
    (fun hproving => by rw [hvalues hproving])
  have hinput := @inputize_run F _ gadgets hgadgets
    ⟨shown proving blockHash, cs₁.nextAux⟩ blockHash cs₂ (hshown blockHash)
  have hchain := @alloc_shown F circuit.chainStateHash chainState cs₃
    (fun hproving => by rw [hvalues hproving])
  have hproduct := @mul_run F _ gadgets hgadgets
    ⟨shown proving sk, cs₀.nextAux⟩ ⟨shown proving blockHash, cs₁.nextAux⟩ sk blockHash cs₄ (hshown sk)
    (hshown blockHash)
  have hmixed := @alloc_shown F _ (sk * blockHash + chainState) cs₅ hsum
  obtain ⟨result, cs₇, hgadget, hresult, hproving, hinputs, haux⟩ :=
    @mimcGadget_run F _ (sk * blockHash + chainState)
      ⟨shown proving (sk * blockHash + chainState), cs₅.nextAux⟩ constants cs₆ rfl
  have hlast := @inputize_run F _ gadgets hgadgets result
    (computeCommitment constants sk blockHash chainState) cs₇ (by
      rw [hproving, hresult]
      exact hshown _)
  have hrun : circuit.synthesize gadgets constants cs₀ = .ok ((), (cs₇.pushInput
      (shown cs₇.proving (computeCommitment constants sk blockHash chainState))).pushConstraint
      ⟨[(cs₇.nextInput, 1)], [(.one, 1)], [(result.var, 1)]⟩) := by
    refine (synthesis_bind_of_ok hsk).trans ?_
    refine (synthesis_bind_of_ok hblock).trans ?_
    refine (synthesis_bind_of_ok hinput).trans ?_
    refine (synthesis_bind_of_ok hchain).trans ?_
    refine (synthesis_bind_of_ok hproduct).trans ?_
    refine (synthesis_bind_of_ok hmixed).trans ?_
    exact (synthesis_bind_of_ok hgadget).trans hlast
  refine ⟨_, hrun, ?_, ?_⟩
  · change cs₇.input ++ [shown cs₇.proving _] = _
    rw [hinputs, hproving]
    rfl
  · change cs₇.aux = _
    rw [haux]
    rfl

end

/-- The satisfying assignments of a system of the circuit with the given private and public inputs,
by the values of the variables that are not public. -/
def Satisfies (cs : ConstraintSystem F) (sk blockHash chainState commitment : F) (aux : List F) :
    Prop :=
  let assignment : WireValues F := ⟨[blockHash, commitment], aux⟩
  cs.Solves assignment ∧ assignment.value skVariable = sk ∧
    assignment.value chainStateVariable = chainState

theorem satisfies_iff (hgadgets : gadgets.Documented) {proving : Bool} {cs : ConstraintSystem F}
    (hsynthesize : circuit.synthesize gadgets constants { proving := proving } = .ok ((), cs))
    (sk blockHash chainState commitment : F) (aux : List F) :
    Satisfies cs sk blockHash chainState commitment aux ↔
      commitment = computeCommitment constants sk blockHash chainState ∧
        aux = (circuitAssignment constants sk blockHash chainState).aux := by
  simp only [Satisfies, synthesize_solves_iff hgadgets hsynthesize]
  constructor
  · rintro ⟨⟨sk', blockHash', chainState', hassignment⟩, hsk, hchain⟩
    rw [hassignment] at hsk hchain
    obtain rfl : sk' = sk := hsk
    obtain rfl : chainState' = chainState := hchain
    injection hassignment with hinput haux
    injection hinput with hblock hcommitment
    injection hcommitment with hcommitment
    rw [hblock]
    exact ⟨hcommitment, haux⟩
  · rintro ⟨rfl, rfl⟩
    exact ⟨⟨sk, blockHash, chainState, rfl⟩, rfl, rfl⟩

/-- The circuit is synthesised, with or without values, and with private inputs `sk` and `chainState`
and public inputs `blockHash` and `commitment` its constraints can be satisfied if and only if the
commitment is the one computed outside, in one way. -/
theorem circuit_equals_commitment (gadgets : NumGadgets F) (hgadgets : gadgets.Documented)
    (constants : List F) (circuit : HMPCircuit F) (proving : Bool)
    (hvalues : proving = true → circuit.skScalar.isSome ∧ circuit.blockHash.isSome ∧
      circuit.chainStateHash.isSome) :
    ∃ cs, circuit.synthesize gadgets constants { proving := proving } = .ok ((), cs) ∧
      ∀ sk blockHash chainState commitment : F,
        ((∃ aux, Satisfies cs sk blockHash chainState commitment aux) ↔
          commitment = computeCommitment constants sk blockHash chainState) ∧
        ∀ aux aux', Satisfies cs sk blockHash chainState commitment aux →
          Satisfies cs sk blockHash chainState commitment aux' → aux = aux' := by
  obtain ⟨sk, blockHash, chainState, hcircuit⟩ : ∃ sk blockHash chainState, proving = true →
      circuit = ⟨some sk, some blockHash, some chainState⟩ := by
    cases proving with
    | false => exact ⟨0, 0, 0, nofun⟩
    | true =>
      obtain ⟨hsk, hblock, hchain⟩ := hvalues rfl
      refine ⟨circuit.skScalar.get hsk, circuit.blockHash.get hblock,
        circuit.chainStateHash.get hchain, fun _ => ?_⟩
      simp
  obtain ⟨cs, hsynthesize, -, -⟩ :=
    @synthesize_run F _ gadgets constants circuit hgadgets proving sk blockHash chainState hcircuit
  refine ⟨cs, hsynthesize, fun sk blockHash chainState commitment => ⟨?_, ?_⟩⟩
  · simp only [satisfies_iff hgadgets hsynthesize]
    exact ⟨fun ⟨_, hcommitment, _⟩ => hcommitment, fun hcommitment => ⟨_, hcommitment, rfl⟩⟩
  · intro aux aux' haux haux'
    rw [((satisfies_iff hgadgets hsynthesize ..).mp haux).2,
      ((satisfies_iff hgadgets hsynthesize ..).mp haux').2]

def documentedGadgets (F : Type) [CommRing F] : NumGadgets F where
  mul a b := do
    let product ← alloc (do return (← a.value) * (← b.value))
    enforce [(a.var, 1)] [(b.var, 1)] [(product.var, 1)]
    return product
  inputize a := do
    let input ← allocInput a.value
    enforce [(input, 1)] [(.one, 1)] [(a.var, 1)]

theorem documentedGadgets_documented : (documentedGadgets F).Documented :=
  ⟨fun _ _ => rfl, fun _ => rfl⟩

/-- A prover with the key 42, the block 100 and the chain state 200 and the constants of the source. -/
theorem circuit_equals_commitment_proving :
    ∃ cs, (⟨some 42, some 100, some 200⟩ : HMPCircuit ℤ).synthesize (documentedGadgets ℤ)
        mimcConstants { proving := true } = .ok ((), cs) ∧
      ∀ sk blockHash chainState commitment : ℤ,
        ((∃ aux, Satisfies cs sk blockHash chainState commitment aux) ↔
          commitment = computeCommitment mimcConstants sk blockHash chainState) ∧
        ∀ aux aux', Satisfies cs sk blockHash chainState commitment aux →
          Satisfies cs sk blockHash chainState commitment aux' → aux = aux' :=
  circuit_equals_commitment (documentedGadgets ℤ) documentedGadgets_documented mimcConstants
    ⟨some 42, some 100, some 200⟩ true (fun _ => ⟨rfl, rfl, rfl⟩)

end Circuit

end Kerrigan.HMP
