import Kerrigan.Primitives.Coins

/-!
# Histories of transactions

Connecting transactions one after another.  A transaction that spends a coin cannot occur twice,
because its coin is gone: so if no two transactions share an identifier and those without inputs
occur once, all identifiers of a history differ, and no output is spent before it exists.
-/

namespace Kerrigan.Primitives

open CCoinsView List

def Spends (tx : CTransaction) (outpoint : COutPoint) : Prop :=
  tx.isCoinBase = false ∧ outpoint ∈ tx.vin.map CTxIn.prevout

/-- The transaction spends no coin: a coinbase, or one of the types without inputs. -/
def spendsNothing (tx : CTransaction) : Bool :=
  tx.isCoinBase || tx.vin.isEmpty

def connectCoins (view : CCoinsView) (nHeight : Int) : List CTransaction → Option CCoinsView
  | [] => some view
  | tx :: rest =>
      match view.updateCoins tx nHeight with
      | none => none
      | some (next, _) => connectCoins next nHeight rest

/-- Transactions with one identifier are the same, and one that spends no coin occurs once: the
height in a coinbase, nullifiers, and the indexes of asset unlocks and commitments see to that. -/
structure DistinctTransactions (history : List CTransaction) : Prop where
  collision_free : ∀ first ∈ history, ∀ second ∈ history, first.hash = second.hash →
    first = second
  once : (history.filter spendsNothing).Nodup

/-- What the coins say about the transactions that led to them. -/
structure Sourced (view : CCoinsView) (history : List CTransaction) : Prop where
  created : ∀ outpoint coin, view outpoint = some coin →
    ∃ tx ∈ history, tx.hash = outpoint.hash
  spent_created : ∀ tx ∈ history, ∀ outpoint, Spends tx outpoint →
    ∃ other ∈ history, other.hash = outpoint.hash
  unspent : ∀ outpoint coin, view outpoint = some coin → ∀ tx ∈ history, ¬ Spends tx outpoint

theorem sourced_nil : Sourced (fun _ => none) [] where
  created := by simp
  spent_created := by simp
  unspent := by simp

theorem DistinctTransactions.left {first second : List CTransaction}
    (h : DistinctTransactions (first ++ second)) : DistinctTransactions first where
  collision_free := fun one hone two htwo =>
    h.collision_free one (mem_append_left second hone) two (mem_append_left second htwo)
  once := by
    have honce := h.once
    rw [filter_append] at honce
    exact (nodup_append.mp honce).1

/-! ## One transaction -/

section Transaction

variable {view next : CCoinsView} {tx : CTransaction} {nHeight : Int} {undo : CTxUndo}

variable {outpoint : COutPoint}

theorem coin_of_spends (hupdate : view.updateCoins tx nHeight = some (next, undo))
    (hspends : Spends tx outpoint) : ∃ coin, view outpoint = some coin := by
  obtain ⟨hcoinbase, hmem⟩ := hspends
  obtain ⟨spent, hspend, -⟩ := updateCoins_spend hcoinbase hupdate
  obtain ⟨txin, htxin, rfl⟩ := mem_map.mp hmem
  cases hcoin : view txin.prevout with
  | none => exact absurd rfl (prevout_ne_of_spendInputs hcoin hspend txin htxin)
  | some coin => exact ⟨coin, rfl⟩

theorem addCoins_of_ne {view final : CCoinsView} {checkForOverwrite : Bool}
    (hadd : view.addCoins tx nHeight checkForOverwrite = some final)
    (hne : tx.vout ≠ [] → outpoint.hash ≠ tx.hash) : final outpoint = view outpoint := by
  refine addCoinsFrom_of_ne hadd ?_
  intro n hn hsame
  exact hne (ne_nil_of_length_pos (Nat.zero_lt_of_lt hn)) (congrArg COutPoint.hash hsame)

/-- A coin after a transaction is one of its outputs, or a coin from before that it has not
spent. -/
theorem coin_of_updateCoins (hupdate : view.updateCoins tx nHeight = some (next, undo))
    {coin : Coin} (hcoin : next outpoint = some coin) :
    (tx.vout ≠ [] ∧ outpoint.hash = tx.hash) ∨
      view outpoint = some coin ∧ ¬ Spends tx outpoint := by
  by_cases hhash : tx.vout ≠ [] ∧ outpoint.hash = tx.hash
  · exact Or.inl hhash
  · refine Or.inr ?_
    rw [not_and] at hhash
    cases hcoinbase : tx.isCoinBase with
    | true =>
      rw [updateCoins, if_pos hcoinbase] at hupdate
      obtain ⟨added, hadd, heq⟩ := Option.map_eq_some_iff.mp hupdate
      cases heq
      rw [addCoins_of_ne hadd hhash] at hcoin
      refine ⟨hcoin, ?_⟩
      intro hspends
      rw [hspends.1] at hcoinbase
      cases hcoinbase
    | false =>
      obtain ⟨spent, hspend, hadd⟩ := updateCoins_spend hcoinbase hupdate
      rw [addCoins_of_ne hadd hhash, spendInputs_apply hspend] at hcoin
      split at hcoin
      · cases hcoin
      · rename_i hunspent
        exact ⟨hcoin, fun hspends => hunspent hspends.2⟩

variable {history : List CTransaction}

section

variable (hsourced : Sourced view history)

include hsourced

/-- A transaction that can be connected is new if those that spend nothing are. -/
theorem Sourced.fresh_of_once (hsame : ∀ other ∈ history, other.hash = tx.hash → other = tx)
    (honce : spendsNothing tx = true → tx ∉ history)
    (hupdate : view.updateCoins tx nHeight = some (next, undo)) :
    ∀ other ∈ history, other.hash ≠ tx.hash := by
  intro other hother hhash
  obtain rfl := hsame other hother hhash
  cases hnothing : spendsNothing other with
  | true => exact honce hnothing hother
  | false =>
    simp only [spendsNothing, Bool.or_eq_false_iff, isEmpty_eq_false_iff] at hnothing
    obtain ⟨txin, rest, hvin⟩ := exists_cons_of_ne_nil hnothing.2
    have hspends : Spends other txin.prevout := ⟨hnothing.1, by rw [hvin]; exact mem_cons_self⟩
    obtain ⟨coin, hcoin⟩ := coin_of_spends hupdate hspends
    exact hsourced.unspent _ coin hcoin other hother hspends

theorem Sourced.fresh {rest : List CTransaction}
    (hdistinct : DistinctTransactions (history ++ tx :: rest))
    (hupdate : view.updateCoins tx nHeight = some (next, undo)) :
    ∀ other ∈ history, other.hash ≠ tx.hash := by
  refine hsourced.fresh_of_once ?_ ?_ hupdate
  · intro other hother hsame
    exact hdistinct.collision_free other (mem_append_left _ hother) tx
      (mem_append_right _ mem_cons_self) hsame
  · intro hnothing hmem
    have honce := hdistinct.once
    rw [filter_append, filter_cons_of_pos hnothing] at honce
    exact (nodup_append.mp honce).2.2 tx (mem_filter.mpr ⟨hmem, hnothing⟩) tx
      mem_cons_self rfl

theorem Sourced.creator (hupdate : view.updateCoins tx nHeight = some (next, undo))
    {spender : CTransaction} (hspender : spender ∈ history ++ [tx])
    (hspends : Spends spender outpoint) : ∃ other ∈ history, other.hash = outpoint.hash := by
  rcases mem_append.mp hspender with hmem | hmem
  · exact hsourced.spent_created spender hmem outpoint hspends
  · cases mem_singleton.mp hmem
    obtain ⟨coin, hcoin⟩ := coin_of_spends hupdate hspends
    exact hsourced.created outpoint coin hcoin

/-- No transaction so far, nor the one that has the outputs, spends an output of a new
identifier. -/
theorem Sourced.unspent_output (hfresh : ∀ other ∈ history, other.hash ≠ tx.hash)
    (hupdate : view.updateCoins tx nHeight = some (next, undo)) (n : Nat) :
    ∀ spender ∈ history ++ [tx], ¬ Spends spender ⟨tx.hash, n⟩ := by
  intro spender hspender hspends
  obtain ⟨other, hother, hsame⟩ := hsourced.creator hupdate hspender hspends
  exact hfresh other hother hsame

theorem Sourced.connect (hfresh : tx.vout ≠ [] → ∀ other ∈ history, other.hash ≠ tx.hash)
    (hupdate : view.updateCoins tx nHeight = some (next, undo)) :
    Sourced next (history ++ [tx]) := by
  refine ⟨?_, ?_, ?_⟩
  · intro outpoint coin hcoin
    rcases coin_of_updateCoins hupdate hcoin with ⟨-, hhash⟩ | ⟨hbefore, -⟩
    · exact ⟨tx, mem_append_right history (mem_singleton_self tx), hhash.symm⟩
    · obtain ⟨other, hother, hsame⟩ := hsourced.created outpoint coin hbefore
      exact ⟨other, mem_append_left [tx] hother, hsame⟩
  · intro spender hspender outpoint hspends
    obtain ⟨other, hother, hsame⟩ := hsourced.creator hupdate hspender hspends
    exact ⟨other, mem_append_left [tx] hother, hsame⟩
  · intro outpoint coin hcoin spender hspender hspends
    rcases coin_of_updateCoins hupdate hcoin with ⟨hvout, hhash⟩ | ⟨hbefore, hunspent⟩
    · obtain ⟨hash, n⟩ := outpoint
      cases hhash
      exact hsourced.unspent_output (hfresh hvout) hupdate n spender hspender hspends
    · rcases mem_append.mp hspender with hmem | hmem
      · exact hsourced.unspent outpoint coin hbefore spender hmem hspends
      · cases mem_singleton.mp hmem
        exact hunspent hspends

end

end Transaction

/-! ## Histories -/

theorem connectCoins_sourced {view final : CCoinsView} {nHeight : Int}
    {history txs : List CTransaction}
    (hsourced : Sourced view history) (hdistinct : DistinctTransactions (history ++ txs))
    (hconnect : connectCoins view nHeight txs = some final) : Sourced final (history ++ txs) := by
  induction txs generalizing view history with
  | nil =>
    cases hconnect
    rwa [append_nil]
  | cons tx rest ih =>
    simp only [connectCoins] at hconnect
    split at hconnect
    · cases hconnect
    · rename_i next undo hupdate
      have hnext := hsourced.connect (fun _ => hsourced.fresh hdistinct hupdate) hupdate
      rw [append_cons] at hdistinct ⊢
      exact ih hnext hdistinct hconnect

end Kerrigan.Primitives
