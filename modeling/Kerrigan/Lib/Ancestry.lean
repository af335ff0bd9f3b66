import Mathlib.Data.List.Infix
import Mathlib.Data.List.Nodup
import Mathlib.Data.List.TakeWhile
import Mathlib.Order.Basic

/-!
# Ancestry in a forest of parent references

Every node refers to at most one parent, and a rank falls along the references.  The ancestry
of a node is the list of the nodes from it to its root.  A list is a branch when it is the
ancestry of its head.  Two branches share their common ending: the ancestry of a node splits
at the first member of another branch.
-/

namespace Kerrigan.Lib

open List

variable {α : Type*}

def ancestryUpTo (parent : α → Option α) : Nat → α → List α
  | 0, _ => []
  | fuel + 1, node => node :: (parent node).elim [] (ancestryUpTo parent fuel)

variable (parent : α → Option α) (rank : α → Nat)

def ancestry (node : α) : List α :=
  ancestryUpTo parent (rank node + 1) node

def Ranked : Prop :=
  ∀ node above, parent node = some above → rank above < rank node

def IsBranch (chain : List α) : Prop :=
  ∀ tip ∈ chain.head?, chain = ancestry parent rank tip

/-! ## Ancestry -/

variable {parent rank} {node : α}

theorem ancestryUpTo_eq_of_rank_lt (hranked : Ranked parent rank) {first second : Nat}
    (hfirst : rank node < first) (hsecond : rank node < second) :
    ancestryUpTo parent first node = ancestryUpTo parent second node := by
  induction first generalizing second node with
  | zero => omega
  | succ first ih =>
    cases second with
    | zero => omega
    | succ second =>
      simp only [ancestryUpTo]
      cases habove : parent node with
      | none => rfl
      | some above =>
        have hlt := hranked node above habove
        have hrest : ancestryUpTo parent first above = ancestryUpTo parent second above :=
          ih (by omega) (by omega)
        rw [Option.elim_some, Option.elim_some, hrest]

theorem ancestry_eq (hranked : Ranked parent rank) (node : α) :
    ancestry parent rank node = node :: (parent node).elim [] (ancestry parent rank) := by
  rw [ancestry, ancestryUpTo]
  cases habove : parent node with
  | none => rfl
  | some above =>
    have hlt := hranked node above habove
    rw [Option.elim_some, Option.elim_some,
      ancestryUpTo_eq_of_rank_lt hranked hlt (Nat.lt_succ_self (rank above))]
    rfl

@[simp] theorem head?_ancestry (node : α) : (ancestry parent rank node).head? = some node := rfl

theorem length_ancestryUpTo_le (fuel : Nat) (node : α) :
    (ancestryUpTo parent fuel node).length ≤ fuel := by
  induction fuel generalizing node with
  | zero => exact Nat.le_refl 0
  | succ fuel ih =>
    rw [ancestryUpTo, length_cons]
    cases parent node with
    | none => exact Nat.succ_le_succ (Nat.zero_le fuel)
    | some above => exact Nat.succ_le_succ (ih above)

theorem ancestryUpTo_congr {parent other : α → Option α} {fuel : Nat}
    (hsame : ∀ member ∈ ancestryUpTo parent fuel node, parent member = other member) :
    ancestryUpTo other fuel node = ancestryUpTo parent fuel node := by
  induction fuel generalizing node with
  | zero => rfl
  | succ fuel ih =>
    rw [ancestryUpTo] at hsame
    rw [ancestryUpTo, ancestryUpTo, ← hsame node mem_cons_self]
    cases habove : parent node with
    | none => rfl
    | some above =>
      rw [habove, Option.elim_some] at hsame
      rw [Option.elim_some, Option.elim_some,
        ih (fun member hmember => hsame member (mem_cons_of_mem node hmember))]

theorem self_mem_ancestry (node : α) : node ∈ ancestry parent rank node :=
  mem_of_mem_head? (head?_ancestry node)

variable {tip : α}

section

variable (hranked : Ranked parent rank)

include hranked

theorem ancestry_suffix {rest : List α} (hsuffix : (tip :: rest) <:+ ancestry parent rank node) :
    tip :: rest = ancestry parent rank tip := by
  induction hrank : rank node using Nat.strong_induction_on generalizing node with
  | _ bound ih =>
    rw [ancestry_eq hranked node, suffix_cons_iff] at hsuffix
    rcases hsuffix with heq | hsuffix
    · rw [cons.injEq] at heq
      rw [heq.1, heq.2]
      exact (ancestry_eq hranked node).symm
    · cases habove : parent node with
      | none =>
        rw [habove, Option.elim_none, suffix_nil] at hsuffix
        cases hsuffix
      | some above =>
        rw [habove, Option.elim_some] at hsuffix
        have hlt := hranked node above habove
        exact ih (rank above) (by omega) hsuffix rfl

theorem rank_le_of_mem_ancestry
    (hmem : node ∈ ancestry parent rank tip) : rank node ≤ rank tip := by
  induction hrank : rank tip using Nat.strong_induction_on generalizing tip with
  | _ bound ih =>
    rw [ancestry_eq hranked tip, mem_cons] at hmem
    rcases hmem with rfl | hmem
    · omega
    · cases habove : parent tip with
      | none =>
        rw [habove, Option.elim_none] at hmem
        cases hmem
      | some above =>
        rw [habove, Option.elim_some] at hmem
        have hlt := hranked tip above habove
        have hle := ih (rank above) (by omega) hmem rfl
        omega

theorem nodup_ancestry (tip : α) :
    (ancestry parent rank tip).Nodup := by
  induction hrank : rank tip using Nat.strong_induction_on generalizing tip with
  | _ bound ih =>
    rw [ancestry_eq hranked tip, nodup_cons]
    cases habove : parent tip with
    | none => exact ⟨not_mem_nil, nodup_nil⟩
    | some above =>
      have hlt := hranked tip above habove
      refine ⟨?_, ih (rank above) (by omega) above rfl⟩
      intro hmem
      have hle := rank_le_of_mem_ancestry hranked hmem
      omega

/-- What does not fall from parents to children is largest at the head. -/
theorem le_of_mem_ancestry {β : Type*} [Preorder β] {size : α → β}
    (hrising : ∀ node ∈ ancestry parent rank tip, ∀ above, parent node = some above →
      size above ≤ size node) (hmem : node ∈ ancestry parent rank tip) :
    size node ≤ size tip := by
  induction hrank : rank tip using Nat.strong_induction_on generalizing tip with
  | _ bound ih =>
    rw [ancestry_eq hranked tip] at hmem hrising
    rcases mem_cons.mp hmem with rfl | hmem
    · exact le_refl _
    · cases habove : parent tip with
      | none =>
        rw [habove, Option.elim_none] at hmem
        cases hmem
      | some above =>
        rw [habove, Option.elim_some] at hmem hrising
        have hlt := hranked tip above habove
        have hrest := ih (rank above) (by omega)
          (fun other hother => hrising other (mem_cons_of_mem tip hother)) hmem rfl
        exact hrest.trans (hrising tip mem_cons_self above habove)

end

/-! ## Branches -/

theorem isBranch_ancestry (node : α) : IsBranch parent rank (ancestry parent rank node) := by
  intro tip htip
  rw [head?_ancestry, Option.mem_some_iff] at htip
  rw [htip]

variable {chain : List α}

theorem IsBranch.suffix (hranked : Ranked parent rank) {tail : List α}
    (hbranch : IsBranch parent rank chain) (hsuffix : tail <:+ chain) :
    IsBranch parent rank tail := by
  intro tip htip
  cases tail with
  | nil => cases htip
  | cons first rest =>
    cases htip
    cases chain with
    | nil => cases suffix_nil.mp hsuffix
    | cons top below =>
      rw [hbranch top rfl] at hsuffix
      exact ancestry_suffix hranked hsuffix

theorem IsBranch.nodup (hranked : Ranked parent rank) (hbranch : IsBranch parent rank chain) :
    chain.Nodup := by
  cases chain with
  | nil => exact nodup_nil
  | cons tip rest =>
    rw [hbranch tip rfl]
    exact nodup_ancestry hranked tip

theorem IsBranch.ancestry_suffix_of_mem (hranked : Ranked parent rank)
    (hbranch : IsBranch parent rank chain) (hmem : node ∈ chain) :
    ancestry parent rank node <:+ chain := by
  obtain ⟨above, below, rfl⟩ := append_of_mem hmem
  have hsuffix : (node :: below) <:+ above ++ node :: below := suffix_append _ _
  rw [← hbranch.suffix hranked hsuffix node rfl]
  exact hsuffix

theorem mem_ancestry_of_append (hranked : Ranked parent rank) {front back : List α} {below : α}
    (hsplit : front ++ back = ancestry parent rank tip) (hfront : node ∈ front)
    (hback : below ∈ back) : below ∈ ancestry parent rank node := by
  obtain ⟨first, second, rfl⟩ := append_of_mem hfront
  rw [append_assoc, cons_append] at hsplit
  have hsuffix : node :: (second ++ back) <:+ ancestry parent rank tip := by
    rw [← hsplit]
    exact suffix_append _ _
  rw [← ancestry_suffix hranked hsuffix]
  exact mem_cons_of_mem node (mem_append_right second hback)

/-- Before the first member of an ending stands all that the ending does not hold. -/
theorem takeWhile_notMem_append [DecidableEq α] {front : List α} (hnodup : (front ++ chain).Nodup) :
    (front ++ chain).takeWhile (fun other => other ∉ chain) = front := by
  have hfront : ∀ other ∈ front, decide (other ∉ chain) = true := by
    intro other hother
    simpa using disjoint_of_nodup_append hnodup hother
  rw [takeWhile_append_of_pos hfront]
  cases chain with
  | nil => simp
  | cons first rest => simp

theorem dropWhile_notMem_append [DecidableEq α] {front : List α} (hnodup : (front ++ chain).Nodup) :
    (front ++ chain).dropWhile (fun other => other ∉ chain) = chain := by
  have hsplit := takeWhile_append_dropWhile (p := fun other => decide (other ∉ chain))
    (l := front ++ chain)
  rw [takeWhile_notMem_append hnodup] at hsplit
  exact append_cancel_left hsplit

theorem IsBranch.dropWhile_ne [DecidableEq α] (hranked : Ranked parent rank)
    (hbranch : IsBranch parent rank chain) (hmem : node ∈ chain) :
    chain.dropWhile (fun other => other ≠ node) = ancestry parent rank node := by
  have hne : chain.dropWhile (fun other => other ≠ node) ≠ [] := by
    intro hnil
    rw [dropWhile_eq_nil_iff] at hnil
    simpa using hnil node hmem
  have hhead := head_dropWhile_not (fun other => decide (other ≠ node)) hne
  obtain ⟨first, rest, hdrop⟩ := exists_cons_of_ne_nil hne
  have hsuffix := dropWhile_suffix (l := chain) (fun other => decide (other ≠ node))
  simp only [hdrop, head_cons] at hhead
  rw [hdrop] at hsuffix ⊢
  have heq : first = node := by simpa using hhead
  rw [hbranch.suffix hranked hsuffix first rfl, heq]

/-- Going back along a branch to the first ancestor of the node leaves what the ancestry of
the node has from its first member of the branch on. -/
theorem IsBranch.dropWhile_fork [DecidableEq α] (hranked : Ranked parent rank)
    (hbranch : IsBranch parent rank chain) (node : α) :
    ((ancestry parent rank node).find? (fun other => other ∈ chain)).elim []
        (fun fork => chain.dropWhile (fun other => other ≠ fork)) =
      (ancestry parent rank node).dropWhile (fun other => other ∉ chain) := by
  have hsuffix := dropWhile_suffix (l := ancestry parent rank node)
    (fun other => decide (other ∉ chain))
  cases hfind : (ancestry parent rank node).find? (fun other => other ∈ chain) with
  | none =>
    rw [find?_eq_none] at hfind
    symm
    rw [Option.elim_none, dropWhile_eq_nil_iff]
    intro other hother
    simpa using hfind other hother
  | some fork =>
    rw [find?_eq_some_iff_append] at hfind
    obtain ⟨hfork, before, after, heq, hbefore⟩ := hfind
    have hmem : fork ∈ chain := by simpa using hfork
    have hdrop : (ancestry parent rank node).dropWhile (fun other => decide (other ∉ chain)) =
        fork :: after := by
      rw [heq, dropWhile_append_of_pos]
      · simpa using hmem
      · intro other hother
        simpa using hbefore other hother
    rw [hdrop] at hsuffix ⊢
    exact (hbranch.dropWhile_ne hranked hmem).trans (ancestry_suffix hranked hsuffix).symm

end Kerrigan.Lib
