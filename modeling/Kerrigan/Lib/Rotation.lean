import Mathlib.Data.Finset.Card
import Mathlib.Data.Int.Interval
import Mathlib.Order.Interval.Finset.Nat

/-!
# Serving the longest waiting

At every time one member of a changing group is served, and it is one of those that wait longest:
the rank of a member is the time of its last service, or of its entry if it was never served.
-/

namespace Kerrigan.Lib

/-- A group that is served one at a time. -/
structure Rotation (Key : Type) where
  /-- When a member after a time was last served or has entered. -/
  rank : Int → Key → Option Int
  served : Int → Option Key
  /-- The member may be served at a time. -/
  Eligible : Int → Key → Prop
  rank_served : ∀ {time : Int} {key : Key} {rank' : Int}, served time = some key →
    rank time key = some rank' → rank' = time
  rank_other : ∀ {time : Int} {key : Key} {rank' : Int}, served time ≠ some key →
    rank time key = some rank' → rank (time - 1) key = some rank' ∨ rank' = time
  longest : ∀ {time : Int} {key other : Key} {rank' : Int}, served time = some key →
    Eligible time other → rank (time - 1) other = some rank' →
      ∃ least ≤ rank', rank (time - 1) key = some least

namespace Rotation

variable {Key : Type} (rotation : Rotation Key)

/-- After a service a member never has an earlier rank again, even if it leaves and returns. -/
theorem le_rank_of_served {first time : Int} {key : Key} (hserved : rotation.served first = some key)
    (htime : first ≤ time) {rank' : Int} (hrank : rotation.rank time key = some rank') :
    first ≤ rank' := by
  induction time, htime using Int.leInduction generalizing rank' with
  | base => exact le_of_eq (rotation.rank_served hserved hrank).symm
  | succ time htime ih =>
    by_cases hagain : rotation.served (time + 1) = some key
    · have hnow := rotation.rank_served hagain hrank
      omega
    · rcases rotation.rank_other hagain hrank with hkept | hentered
      · rw [Int.add_sub_cancel] at hkept
        exact ih hkept
      · omega

/-- A member that only a service could change keeps its rank until it is served. -/
theorem rank_eq_of_not_served {first last : Int} {key : Key}
    (hstays : ∀ time, first < time → time ≤ last → rotation.served time ≠ some key →
      rotation.rank time key = rotation.rank (time - 1) key)
    (hwaits : ∀ time, first < time → time ≤ last → rotation.served time ≠ some key)
    (hlast : first ≤ last) : rotation.rank last key = rotation.rank first key := by
  induction last, hlast using Int.leInduction with
  | base => rfl
  | succ last hlast ih =>
    have hbefore := ih (fun time hlow hhigh => hstays time hlow (by omega))
      (fun time hlow hhigh => hwaits time hlow (by omega))
    have hkept := hstays (last + 1) (by omega) le_rfl (hwaits (last + 1) (by omega) le_rfl)
    rw [hkept, Int.add_sub_cancel, hbefore]

theorem served_between {first second : Int} {key other : Key} (horder : first < second)
    (hne : other ≠ key) (hfirst : rotation.served first = some key)
    (hsecond : rotation.served second = some key) {start : Int}
    (hstart : rotation.rank (first - 1) other = some start) (hearly : start < first)
    (hstays : ∀ time, first ≤ time → time < second → rotation.served time ≠ some other →
      rotation.rank time other = rotation.rank (time - 1) other)
    (heligible : rotation.Eligible second other) :
    ∃ time, first < time ∧ time < second ∧ rotation.served time = some other := by
  by_contra hnever
  push Not at hnever
  have hwaits : ∀ time, first - 1 < time → time ≤ second - 1 →
      rotation.served time ≠ some other := by
    intro time hlow hhigh hserved
    rcases eq_or_lt_of_le (show first ≤ time by omega) with rfl | hlater
    · rw [hfirst, Option.some.injEq] at hserved
      exact hne hserved.symm
    · exact hnever time hlater (by omega) hserved
  have hrank := rotation.rank_eq_of_not_served
    (fun time hlow hhigh => hstays time (by omega) (by omega)) hwaits
    (show first - 1 ≤ second - 1 by omega)
  rw [hstart] at hrank
  obtain ⟨least, hleast, hserved⟩ := rotation.longest hsecond heligible hrank
  have hrenewed := rotation.le_rank_of_served hfirst (show first ≤ second - 1 by omega) hserved
  omega

end Rotation

section Once

variable {Key : Type} [DecidableEq Key] {served : Int → Option Key} {members : Finset Key}
  {start : Int}

/-- If between two services of a member every other one is served, nobody is served twice in as
many services as there are members. -/
theorem not_served_twice (hbetween : ∀ first second key other, start ≤ first → first < second →
      second < start + members.card → other ∈ members → other ≠ key →
      served first = some key → served second = some key →
      ∃ time, first < time ∧ time < second ∧ served time = some other)
    {first second : Int} {key : Key} (hlow : start ≤ first) (horder : first < second)
    (hhigh : second < start + members.card) (hfirst : served first = some key) :
    served second ≠ some key := by
  intro hsecond
  have hothers : (members.erase key).image some ⊆ (Finset.Ioo first second).image served := by
    intro value hvalue
    obtain ⟨other, hother, rfl⟩ := Finset.mem_image.mp hvalue
    obtain ⟨hne, hmem⟩ := Finset.mem_erase.mp hother
    obtain ⟨time, htimeLow, htimeHigh, hserved⟩ :=
      hbetween first second key other hlow horder hhigh hmem hne hfirst hsecond
    exact Finset.mem_image.mpr ⟨time, Finset.mem_Ioo.mpr ⟨htimeLow, htimeHigh⟩, hserved⟩
  have hcard := (Finset.card_le_card hothers).trans Finset.card_image_le
  rw [Finset.card_image_of_injective _ (Option.some_injective Key), Int.card_Ioo] at hcard
  have herase : members.card - 1 ≤ (members.erase key).card := Finset.pred_card_le_card_erase
  omega

/-- If members of a group are served, and between two services of one of them every other is
served, then as many services as there are members reach each of them once. -/
theorem existsUnique_served (hmembers : ∀ time, start ≤ time → time < start + members.card →
      ∃ key ∈ members, served time = some key)
    (hbetween : ∀ first second key other, start ≤ first → first < second →
      second < start + members.card → other ∈ members → other ≠ key →
      served first = some key → served second = some key →
      ∃ time, first < time ∧ time < second ∧ served time = some other) :
    ∀ key ∈ members, ∃! time, start ≤ time ∧ time < start + members.card ∧
      served time = some key := by
  have hinjective : Set.InjOn served (Finset.Ico start (start + members.card)) := by
    intro first hfirst second hsecond hsame
    rw [Finset.mem_coe, Finset.mem_Ico] at hfirst hsecond
    obtain ⟨key, -, hserved⟩ := hmembers first hfirst.1 hfirst.2
    rcases lt_trichotomy first second with hlt | heq | hgt
    · exact absurd (hsame ▸ hserved)
        (not_served_twice hbetween hfirst.1 hlt hsecond.2 hserved)
    · exact heq
    · exact absurd hserved
        (not_served_twice hbetween hsecond.1 hgt hfirst.2 (hsame ▸ hserved))
  have hall : (Finset.Ico start (start + members.card)).image served = members.image some := by
    refine Finset.eq_of_subset_of_card_le ?_ ?_
    · intro value hvalue
      obtain ⟨time, htime, rfl⟩ := Finset.mem_image.mp hvalue
      rw [Finset.mem_Ico] at htime
      obtain ⟨key, hkey, hserved⟩ := hmembers time htime.1 htime.2
      rw [hserved]
      exact Finset.mem_image_of_mem some hkey
    · rw [Finset.card_image_of_injective _ (Option.some_injective Key),
        Finset.card_image_of_injOn hinjective, Int.card_Ico]
      omega
  intro key hkey
  have hserved : some key ∈ (Finset.Ico start (start + members.card)).image served := by
    rw [hall]
    exact Finset.mem_image_of_mem some hkey
  obtain ⟨time, htime, hsame⟩ := Finset.mem_image.mp hserved
  have hrange := Finset.mem_Ico.mp htime
  refine ⟨time, ⟨hrange.1, hrange.2, hsame⟩, ?_⟩
  rintro other ⟨hlow, hhigh, hother⟩
  exact hinjective (Finset.mem_coe.mpr (Finset.mem_Ico.mpr ⟨hlow, hhigh⟩)) htime
    (hother.trans hsame.symm)

end Once

end Kerrigan.Lib
