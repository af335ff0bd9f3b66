import Mathlib.Data.List.Infix

/-!
# Runs of a deterministic machine

A machine is a total step function on states.  A run performs a list of actions in order.  Two
predicates speak about the whole run: `Always` holds a property at every state visited, `Guarded`
holds a condition on every action in the state in which it is performed.
-/

namespace Kerrigan.Lib

variable {σ α : Type*} (step : σ → α → σ) (start : σ)

def run (actions : List α) : σ :=
  actions.foldl step start

@[simp] theorem run_nil : run step start [] = start := rfl

@[simp] theorem run_cons (action : α) (rest : List α) :
    run step start (action :: rest) = run step (step start action) rest := rfl

theorem run_append (first second : List α) :
    run step start (first ++ second) = run step (run step start first) second :=
  List.foldl_append

theorem run_concat (actions : List α) (action : α) :
    run step start (actions ++ [action]) = step (run step start actions) action := by
  rw [run_append, run_cons, run_nil]

def Guarded (step : σ → α → σ) (admits : σ → α → Prop) : σ → List α → Prop
  | _, [] => True
  | start, action :: rest => admits start action ∧ Guarded step admits (step start action) rest

/-- The property holds at every state visited by the run. -/
def Always (property : σ → Prop) (start : σ) (actions : List α) : Prop :=
  ∀ visited, visited <+: actions → property (run step start visited)

variable {step start} {property : σ → Prop} {admits : σ → α → Prop} {actions : List α}

theorem Always.initial (always : Always step property start actions) : property start :=
  always [] List.nil_prefix

theorem always_nil :
    Always step property start [] ↔ property start := by
  constructor
  · exact Always.initial
  · intro hstart visited hvisited
    rw [List.prefix_nil.mp hvisited]
    exact hstart

theorem always_cons {action : α} {rest : List α} :
    Always step property start (action :: rest) ↔
      property start ∧ Always step property (step start action) rest := by
  constructor
  · intro always
    refine ⟨always.initial, ?_⟩
    intro visited hvisited
    exact always (action :: visited) (List.cons_prefix_cons.mpr ⟨rfl, hvisited⟩)
  · rintro ⟨hstart, always⟩ visited hvisited
    cases visited with
    | nil => exact hstart
    | cons first later =>
      obtain ⟨rfl, hlater⟩ := List.cons_prefix_cons.mp hvisited
      exact always later hlater

theorem guarded_of_forall (hadmits : ∀ action ∈ actions, ∀ s, admits s action) (start : σ) :
    Guarded step admits start actions := by
  induction actions generalizing start with
  | nil => trivial
  | cons action rest ih =>
    rw [List.forall_mem_cons] at hadmits
    exact ⟨hadmits.1 start, ih hadmits.2 (step start action)⟩

/-- A guarded run may go on with an action that its last state admits. -/
theorem Guarded.concat (guarded : Guarded step admits start actions) {action : α}
    (hadmits : admits (run step start actions) action) :
    Guarded step admits start (actions ++ [action]) := by
  induction actions generalizing start with
  | nil => exact ⟨hadmits, trivial⟩
  | cons first rest ih => exact ⟨guarded.1, ih guarded.2 hadmits⟩

theorem always_of_guarded (preserved : ∀ s a, property s → admits s a → property (step s a))
    (hstart : property start) (guarded : Guarded step admits start actions) :
    Always step property start actions := by
  induction actions generalizing start with
  | nil => exact always_nil.mpr hstart
  | cons action rest ih =>
    obtain ⟨hadmits, hrest⟩ := guarded
    exact always_cons.mpr ⟨hstart, ih (preserved start action hstart hadmits) hrest⟩

/-- When a step preserves the property exactly if it is admitted, the property
holds throughout a run exactly if every step of the run is admitted. -/
theorem always_iff_guarded (exact_step : ∀ s a, property s → (property (step s a) ↔ admits s a))
    (hstart : property start) :
    Always step property start actions ↔ Guarded step admits start actions := by
  refine ⟨?_, always_of_guarded (fun s a hs ha => (exact_step s a hs).mpr ha) hstart⟩
  intro always
  induction actions generalizing start with
  | nil => trivial
  | cons action rest ih =>
    obtain ⟨-, hrest⟩ := always_cons.mp always
    have hnext : property (step start action) := hrest.initial
    exact ⟨(exact_step start action hstart).mp hnext, ih hnext hrest⟩

theorem always_of_preserved (preserved : ∀ s a, property s → property (step s a))
    (hstart : property start) (actions : List α) :
    Always step property start actions := by
  have hguarded : Guarded step (fun _ _ => True) start actions :=
    guarded_of_forall (fun _ _ _ => trivial) start
  exact always_of_guarded (fun s a hs _ => preserved s a hs) hstart hguarded

theorem Always.final (always : Always step property start actions) :
    property (run step start actions) :=
  always actions List.prefix_rfl

end Kerrigan.Lib
