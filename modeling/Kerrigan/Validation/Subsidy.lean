import Kerrigan.Validation.Supply
import Mathlib.Algebra.BigOperators.Ring.Finset
import Mathlib.Tactic.Ring

/-!
# The block subsidy

`GetBlockSubsidyInner`: 25 coins for a block, halved with truncation after every interval.  Two
intervals of full subsidies make up the largest amount of money, and truncation or not, what is
still to come keeps the emission strictly below it.
-/

namespace Kerrigan.Validation

open Primitives Consensus Lib Sapling

variable {params : LedgerParams}

theorem getBlockSubsidyInner_eq {interval : Nat}
    (hinterval : params.nSubsidyHalvingInterval = interval) (nPrevHeight : Nat) :
    getBlockSubsidyInner params nPrevHeight =
      (2500000000 / 2 ^ (nPrevHeight / interval) : Nat) := by
  have hhalvings : (nPrevHeight : Int) / params.nSubsidyHalvingInterval =
      (nPrevHeight / interval : Nat) := by rw [hinterval, Int.natCast_ediv]
  simp only [getBlockSubsidyInner, hhalvings]
  split
  next hlate =>
    have hlarge : 2500000000 < 2 ^ (nPrevHeight / interval) :=
      (show 2500000000 < 2 ^ 64 by decide).trans_le (Nat.pow_le_pow_right (by decide) (by omega))
    rw [Nat.div_eq_of_lt hlarge]
    rfl
  next =>
    rfl

theorem subsidies_eq_sum (n : Nat) :
    subsidies params n = ∑ nPrevHeight ∈ Finset.range n, getBlockSubsidyInner params nPrevHeight := by
  induction n with
  | zero => rfl
  | succ n ih => rw [subsidies_succ, ih, Finset.sum_range_succ]

/-- What has been paid, in units of the current halving, leaves room for the rest of this interval
and for one more interval of full subsidies. -/
theorem sum_halvings_le {interval : Nat} (hinterval : 0 < interval) (start n : Nat) :
    2 ^ (n / interval) * ∑ height ∈ Finset.range n, start / 2 ^ (height / interval) +
      (2 * interval - n % interval) * start ≤ 2 ^ (n / interval) * (2 * interval * start) := by
  induction n with
  | zero => simp
  | succ n ih =>
    have hpaid : 2 ^ (n / interval) * (start / 2 ^ (n / interval)) ≤ start := Nat.mul_div_le _ _
    have hsplit := Nat.div_add_mod n interval
    have hmod := Nat.mod_lt n hinterval
    rw [Finset.sum_range_succ]
    generalize ∑ height ∈ Finset.range n, start / 2 ^ (height / interval) = paid at ih ⊢
    by_cases hlast : n % interval + 1 = interval
    · -- the next block begins a new interval
      have hnext : n + 1 = interval * (n / interval + 1) := by
        rw [Nat.mul_add, Nat.mul_one]
        omega
      have hroom : (2 * interval - n % interval) * start = interval * start + start := by
        rw [show 2 * interval - n % interval = interval + 1 by omega, Nat.succ_mul]
      rw [hnext, Nat.mul_div_cancel_left _ hinterval, Nat.mul_mod_right, Nat.sub_zero]
      calc 2 ^ (n / interval + 1) * (paid + start / 2 ^ (n / interval)) + 2 * interval * start
          = 2 * (2 ^ (n / interval) * paid + (interval * start +
              2 ^ (n / interval) * (start / 2 ^ (n / interval)))) := by ring
        _ ≤ 2 * (2 ^ (n / interval) * (2 * interval * start)) := by omega
        _ = 2 ^ (n / interval + 1) * (2 * interval * start) := by ring
    · have hnext : n + 1 = interval * (n / interval) + (n % interval + 1) := by omega
      have hroom : (2 * interval - n % interval) * start =
          (2 * interval - (n % interval + 1)) * start + start := by
        rw [← Nat.succ_mul]
        congr 1
        omega
      have hwithin : n % interval + 1 < interval := by omega
      rw [hnext, Nat.mul_add_div hinterval, Nat.div_eq_of_lt hwithin, Nat.add_zero,
        Nat.mul_add_mod, Nat.mod_eq_of_lt hwithin, Nat.mul_add]
      omega

theorem subsidies_lt_maxMoney (hinterval : params.nSubsidyHalvingInterval = (1051200 : Nat))
    (n : Nat) : subsidies params n < maxMoney := by
  have hbound := sum_halvings_le (show 0 < 1051200 by decide) 2500000000 n
  have hmod := Nat.mod_lt n (show 0 < 1051200 by decide)
  have hstrict : ∑ height ∈ Finset.range n, 2500000000 / 2 ^ (height / 1051200) <
      2 * 1051200 * 2500000000 :=
    Nat.lt_of_mul_lt_mul_left (a := 2 ^ (n / 1051200)) (by omega)
  have hmoney : maxMoney = (2 * 1051200 * 2500000000 : Nat) := by decide
  rw [hmoney, subsidies_eq_sum,
    Finset.sum_congr rfl (fun _ _ => getBlockSubsidyInner_eq hinterval _), ← Nat.cast_sum]
  exact Int.ofNat_lt.mpr hstrict

/-- On the main network the emission stays below two intervals of full subsidies. -/
theorem emission_bounded (params : LedgerParams) :
    let main := { params with nSubsidyHalvingInterval := 1051200 }
    (∀ n : Nat, subsidies main n < maxMoney) ∧
      (∀ nPrevHeight : Nat, 0 ≤ getBlockSubsidyInner main nPrevHeight) ∧
      (∀ first second : Nat, first ≤ second →
        getBlockSubsidyInner main second ≤ getBlockSubsidyInner main first) ∧
      ∃ last : Nat, ∀ nPrevHeight : Nat, last ≤ nPrevHeight →
        getBlockSubsidyInner main nPrevHeight = 0 := by
  intro main
  have hsubsidy : ∀ nPrevHeight : Nat, getBlockSubsidyInner main nPrevHeight =
      (2500000000 / 2 ^ (nPrevHeight / 1051200) : Nat) := getBlockSubsidyInner_eq rfl
  refine ⟨subsidies_lt_maxMoney rfl, fun nPrevHeight => ?_, fun first second hle => ?_,
    64 * 1051200, fun nPrevHeight hlate => ?_⟩
  · rw [hsubsidy]
    exact Int.natCast_nonneg _
  · rw [hsubsidy, hsubsidy]
    have hhalvings := Nat.div_le_div_right (c := 1051200) hle
    exact Int.ofNat_le.mpr (Nat.div_le_div_left (Nat.pow_le_pow_right (by decide) hhalvings)
      (Nat.two_pow_pos _))
  · have hhalvings : 64 ≤ (nPrevHeight : Int) / 1051200 := by omega
    exact if_pos hhalvings

/-! ## The supply of the main network -/

/-- The heights at which the main network fixes the type of coinbases, opens the pool and halves
the subsidy. -/
def LedgerParams.main (params : LedgerParams) : LedgerParams :=
  { params with SaplingHeight := 500, DIP0003Height := 2, nSubsidyHalvingInterval := 1051200 }

/-- On the main network, along every chain of blocks without asset locks and unlocks, the coins and
the shielded pool stay below the largest amount of money. -/
theorem supply_below_max_money (params : LedgerParams) {Frontier : Type}
    (frontiers : FrontierFunctions Frontier) (genesis : Uint256) (verifySaplingProofs : ProofVerdict)
    (decodeDestination : String → Option Script) {steps : List ConnectStep}
    (hassets : ∀ step ∈ steps, WithoutAssets step.block.toCBlock) :
    Always (ledgerStep params.main frontiers genesis verifySaplingProofs decodeDestination)
      (fun state => SupplyBounded params.main state ∧
        utxoTotal state.coins + state.sapling.nSaplingValuePool < maxMoney)
      LedgerState.genesis steps := by
  intro visited hvisited
  have hheights : params.main.DIP0003Height ≤ params.main.SaplingHeight := by
    simp [LedgerParams.main]
  have hbounded : SupplyBounded params.main (run (ledgerStep params.main frontiers genesis
      verifySaplingProofs decodeDestination) LedgerState.genesis visited) :=
    (supplyInvariant_of_heights hheights hassets visited hvisited).bounded
  exact ⟨hbounded, hbounded.total.trans_lt (subsidies_lt_maxMoney rfl _)⟩

theorem supply_below_max_money_mined :
    let step := Sample.connectOf [Sample.minerTx .coinbase none] (by decide)
    let state := run (ledgerStep Sample.supplyParams.main Sapling.Sample.counting 1
      Sapling.Sample.provesAll (fun _ => none)) LedgerState.genesis [step]
    state.chain.length = 1 ∧
      utxoTotal state.coins + state.sapling.nSaplingValuePool < maxMoney := by
  intro step state
  have hassets : ∀ other ∈ [step], WithoutAssets other.block.toCBlock := by
    simp only [List.mem_singleton, forall_eq]
    unfold WithoutAssets
    decide
  exact ⟨by decide +kernel, (supply_below_max_money _ _ _ _ _ hassets _ (List.prefix_refl _)).2⟩

end Kerrigan.Validation
