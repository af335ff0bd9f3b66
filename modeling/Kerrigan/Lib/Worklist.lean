import Mathlib.Data.List.Dedup
import Mathlib.Data.List.Nodup
import Mathlib.Data.List.Perm.Subperm

/-!
# Worklists

A traversal of a graph that keeps the nodes still to be visited and the nodes visited.  With as
many rounds as there are nodes it ends with an empty worklist, and what it has visited contains
the nodes it started from and is closed under the edges.
-/

namespace Kerrigan.Lib

open List

variable {α : Type*}

/-- Visit the first node of the worklist and add its unseen children, for the given number of
rounds. -/
def traverse [DecidableEq α] (children : α → List α) : Nat → List α → List α → List α
  | 0, _, visited => visited
  | _ + 1, [], visited => visited
  | rounds + 1, node :: stage, visited =>
      traverse children rounds
        (stage ++ ((children node).dedup.filter (fun child => child ∉ node :: stage ++ visited)))
        (node :: visited)

/-- A worklist that can be finished: nothing is listed twice, the children of the visited nodes
are listed, and there are as many rounds left as unvisited nodes. -/
structure Unfinished (children : α → List α) (nodes : List α) (rounds : Nat)
    (stage visited : List α) : Prop where
  nodup : (stage ++ visited).Nodup
  within : ∀ node ∈ stage ++ visited, node ∈ nodes
  expanded : ∀ node ∈ visited, ∀ child ∈ children node, child ∈ stage ++ visited
  rounds : nodes.length ≤ rounds + visited.length

variable {children : α → List α} {nodes : List α} {rounds : Nat} {stage visited : List α}

theorem Unfinished.stage_eq_nil (hwork : Unfinished children nodes 0 stage visited) :
    stage = [] := by
  have hlength := (hwork.nodup.subperm hwork.within).length_le
  have hrounds := hwork.rounds
  rw [length_append] at hlength
  exact length_eq_zero_iff.mp (by omega)

variable [DecidableEq α]

section

variable (hchildren : ∀ parent ∈ nodes, ∀ child ∈ children parent, child ∈ nodes)

include hchildren

theorem Unfinished.round {node : α}
    (hwork : Unfinished children nodes (rounds + 1) (node :: stage) visited) :
    Unfinished children nodes rounds
      (stage ++ ((children node).dedup.filter (fun child => child ∉ node :: stage ++ visited)))
      (node :: visited) := by
  have hlisted : ∀ other : α,
      other ∈ (stage ++ (children node).dedup.filter
          (fun child => child ∉ node :: stage ++ visited)) ++ node :: visited ↔
        other ∈ node :: stage ++ visited ∨ other ∈ children node := by
    intro other
    simp only [mem_append, mem_cons, mem_filter, mem_dedup, decide_eq_true_eq]
    tauto
  have hnode : node ∈ nodes := hwork.within node mem_cons_self
  refine ⟨?_, ?_, ?_, ?_⟩
  · have hnew : ((children node).dedup.filter
        (fun child => child ∉ node :: stage ++ visited)).Nodup :=
      (nodup_dedup _).filter _
    have hold := hwork.nodup
    grind
  · intro other hother
    rcases (hlisted other).mp hother with hbefore | hchild
    · exact hwork.within other hbefore
    · exact hchildren node hnode other hchild
  · intro parent hparent child hchild
    rw [hlisted]
    rcases mem_cons.mp hparent with rfl | hvisited
    · exact Or.inr hchild
    · exact Or.inl (hwork.expanded parent hvisited child hchild)
  · have hrounds := hwork.rounds
    rw [length_cons]
    omega

/-- A finished traversal has visited every listed node once, and with a node its children. -/
theorem traverse_closed (hwork : Unfinished children nodes rounds stage visited) :
    let found := traverse children rounds stage visited
    (∀ node ∈ stage ++ visited, node ∈ found) ∧
      (∀ node ∈ found, ∀ child ∈ children node, child ∈ found) ∧
      (∀ node ∈ found, node ∈ nodes) ∧ found.Nodup := by
  dsimp only
  induction rounds generalizing stage visited with
  | zero =>
    obtain rfl := hwork.stage_eq_nil
    exact ⟨fun node hnode => hnode, hwork.expanded, hwork.within, hwork.nodup⟩
  | succ rounds ih =>
    cases stage with
    | nil => exact ⟨fun node hnode => hnode, hwork.expanded, hwork.within, hwork.nodup⟩
    | cons node stage =>
      obtain ⟨hlisted, hclosed⟩ := ih (hwork.round hchildren)
      refine ⟨?_, hclosed⟩
      intro other hother
      refine hlisted other ?_
      simp only [mem_append, mem_cons] at hother ⊢
      tauto

end

end Kerrigan.Lib
