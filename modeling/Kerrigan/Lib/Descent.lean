import Mathlib.Data.Finset.Basic
import Mathlib.Data.List.Induction

/-!
# Descent along a sequence of items

The items of a sequence read keys and write keys.  A mark starts at a root, and an item that reads a
marked key passes the mark on to everything it writes.  One pass over the sequence collects exactly
the keys that descend from a root.
-/

namespace Kerrigan.Lib

open List

variable {ι κ : Type*}

/-- What the items read and write, and which of them are roots. -/
structure Flow (ι κ : Type*) where
  root : ι → Bool
  reads : ι → List κ
  writes : ι → List κ

namespace Flow

variable (flow : Flow ι κ)

/-- The key is written by a root, or by an item that reads a key written before it that
descends from a root. -/
inductive Descends : List ι → κ → Prop
  | root {before after : List ι} {item : ι} {key : κ} (hroot : flow.root item = true)
      (hkey : key ∈ flow.writes item) : Descends (before ++ item :: after) key
  | step {before after : List ι} {item : ι} {source key : κ} (hread : source ∈ flow.reads item)
      (hsource : Descends before source) (hkey : key ∈ flow.writes item) :
      Descends (before ++ item :: after) key

variable {flow} {items first second : List ι} {item : ι} {key : κ}

theorem Descends.append (hkey : flow.Descends first key) (second : List ι) :
    flow.Descends (first ++ second) key := by
  cases hkey with
  | root hroot hwrites =>
    rw [append_assoc]
    exact .root hroot hwrites
  | step hread hsource hwrites =>
    rw [append_assoc]
    exact .step hread hsource hwrites

/-- An item of an extended sequence is the new one, or was there before. -/
theorem split_concat {before after : List ι} {other : ι}
    (hall : items ++ [item] = before ++ other :: after) :
    before = items ∧ other = item ∨ ∃ rest, items = before ++ other :: rest := by
  rcases eq_nil_or_concat after with rfl | ⟨rest, last, rfl⟩
  · obtain ⟨rfl, hlast⟩ := append_inj' hall rfl
    exact Or.inl ⟨rfl, by simpa using hlast.symm⟩
  · rw [concat_eq_append, ← cons_append, ← append_assoc] at hall
    obtain ⟨rfl, -⟩ := append_inj' hall rfl
    exact Or.inr ⟨rest, rfl⟩

/-- The last item of the sequence adds what it writes, if it is marked. -/
theorem descends_concat_iff :
    flow.Descends (items ++ [item]) key ↔
      flow.Descends items key ∨
        key ∈ flow.writes item ∧
          (flow.root item = true ∨ ∃ source ∈ flow.reads item, flow.Descends items source) := by
  constructor
  · intro hkey
    generalize hall : items ++ [item] = all at hkey
    cases hkey with
    | root hroot hwrites =>
      rcases split_concat hall with ⟨rfl, rfl⟩ | ⟨rest, rfl⟩
      · exact Or.inr ⟨hwrites, Or.inl hroot⟩
      · exact Or.inl (.root hroot hwrites)
    | @step before after other source _ hread hsource hwrites =>
      rcases split_concat hall with ⟨rfl, rfl⟩ | ⟨rest, rfl⟩
      · exact Or.inr ⟨hwrites, Or.inr ⟨source, hread, hsource⟩⟩
      · exact Or.inl (.step hread hsource hwrites)
  · rintro (hkey | ⟨hwrites, hroot | ⟨source, hread, hsource⟩⟩)
    · exact hkey.append [item]
    · exact .root hroot hwrites
    · exact .step hread hsource hwrites

theorem not_descends_nil : ¬ flow.Descends [] key := by
  intro hkey
  generalize hall : ([] : List ι) = all at hkey
  cases hkey <;> simp at hall

/-- Marks of a later part stay marks when earlier items are put before it. -/
theorem Descends.prepend (hkey : flow.Descends second key) (first : List ι) :
    flow.Descends (first ++ second) key := by
  induction hkey with
  | root hroot hwrites =>
    rw [← append_assoc]
    exact .root hroot hwrites
  | step hread hsource hwrites ih =>
    rw [← append_assoc]
    exact .step hread ih hwrites

/-- If no later item reads a mark of the earlier ones, the marks are those of the parts. -/
theorem descends_append_iff
    (hclean : ∀ item ∈ second, ∀ source ∈ flow.reads item, ¬ flow.Descends first source) :
    flow.Descends (first ++ second) key ↔ flow.Descends first key ∨ flow.Descends second key := by
  constructor
  · intro hkey
    induction second using reverseRecOn generalizing key with
    | nil =>
      rw [append_nil] at hkey
      exact Or.inl hkey
    | append_singleton rest item ih =>
      have hrest : ∀ other ∈ rest, ∀ source ∈ flow.reads other, ¬ flow.Descends first source :=
        fun other hother => hclean other (mem_append_left [item] hother)
      rw [← append_assoc, descends_concat_iff] at hkey
      rw [descends_concat_iff]
      rcases hkey with hkey | ⟨hwrites, hroot | ⟨source, hread, hsource⟩⟩
      · rcases ih hrest hkey with hfirst | hsecond
        · exact Or.inl hfirst
        · exact Or.inr (Or.inl hsecond)
      · exact Or.inr (Or.inr ⟨hwrites, Or.inl hroot⟩)
      · rcases ih hrest hsource with hfirst | hsecond
        · have hmem : item ∈ rest ++ [item] := mem_append_right rest mem_cons_self
          exact absurd hfirst (hclean item hmem source hread)
        · exact Or.inr (Or.inr ⟨hwrites, Or.inr ⟨source, hread, hsecond⟩⟩)
  · rintro (hfirst | hsecond)
    · exact hfirst.append second
    · exact hsecond.prepend first

/-! ## The pass -/

section Pass

variable [DecidableEq κ] (flow)

def marks (marked : Finset κ) (item : ι) : Bool :=
  flow.root item || (flow.reads item).any (fun key => decide (key ∈ marked))

def markOne (marked : Finset κ) (item : ι) : Finset κ :=
  if flow.marks marked item then marked ∪ (flow.writes item).toFinset else marked

def markAll (items : List ι) : Finset κ := items.foldl flow.markOne ∅

variable {flow}

theorem mem_markAll_iff : key ∈ flow.markAll items ↔ flow.Descends items key := by
  induction items using reverseRecOn generalizing key with
  | nil => simp [markAll, not_descends_nil]
  | append_singleton rest item ih =>
    have hstep : flow.markAll (rest ++ [item]) = flow.markOne (flow.markAll rest) item := by
      rw [markAll, foldl_append]
      rfl
    have hmarks : flow.marks (flow.markAll rest) item = true ↔
        flow.root item = true ∨ ∃ source ∈ flow.reads item, flow.Descends rest source := by
      simp only [marks, Bool.or_eq_true, any_eq_true, decide_eq_true_eq, ih]
    rw [hstep, descends_concat_iff, ← hmarks, ← ih, markOne]
    split
    next hmarked =>
        simp [hmarked]
    next hmarked => simp [hmarked]

end Pass

end Flow

end Kerrigan.Lib
