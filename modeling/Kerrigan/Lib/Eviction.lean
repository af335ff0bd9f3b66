import Mathlib.Data.List.Nodup
import Mathlib.Data.List.Perm.Subperm
import Kerrigan.Lib.OrdMap

/-!
# Eviction from bounded maps

A map of bounded size that forgets its oldest entries by a queue of insertions, and one
that forgets its lowest keys.  An entry stays while fewer entries than the capacity are
newer, or higher, than it.
-/

namespace Kerrigan.Lib

open List

/-! ## Queues -/

section Queue

variable {α : Type} [DecidableEq α]

/-- The key is in the queue, and at most the given number of other entries follow it. -/
def RecordedWithin (key : α) (count : Nat) (order : List α) : Prop :=
  ∃ older newer, order = older ++ key :: newer ∧ key ∉ older ∧
    (newer.filter (fun other => other ≠ key)).length ≤ count

variable {key : α} {order : List α}

theorem RecordedWithin.mono {count larger : Nat} (hrecorded : RecordedWithin key count order)
    (hle : count ≤ larger) : RecordedWithin key larger order := by
  obtain ⟨older, newer, hsplit, hfirst, hcount⟩ := hrecorded
  exact ⟨older, newer, hsplit, hfirst, Nat.le_trans hcount hle⟩

theorem RecordedWithin.append {count : Nat} (hrecorded : RecordedWithin key count order)
    (added : List α) :
    RecordedWithin key (count + (added.filter (fun other => other ≠ key)).length)
      (order ++ added) := by
  obtain ⟨older, newer, rfl, hfirst, hcount⟩ := hrecorded
  refine ⟨older, newer ++ added, by simp, hfirst, ?_⟩
  rw [filter_append, length_append]
  omega

/-- How many entries of other keys follow the first entry of the key. -/
def newerThan (key : α) (order : List α) : Nat :=
  ((order.dropWhile (fun other => other ≠ key)).filter (fun other => other ≠ key)).length

theorem recordedWithin_of_mem (hmem : key ∈ order) :
    RecordedWithin key (newerThan key order) order := by
  obtain ⟨older, newer, rfl, hfirst⟩ := eq_append_cons_of_mem hmem
  refine ⟨older, newer, rfl, hfirst, ?_⟩
  have hdrop : (older ++ key :: newer).dropWhile (fun other => other ≠ key) = key :: newer := by
    rw [dropWhile_append_of_pos, dropWhile_cons_of_neg (by simp)]
    intro other hother
    simpa using fun heq : other = key => hfirst (heq ▸ hother)
  have hcount : newerThan key (older ++ key :: newer) =
      (newer.filter (fun other => other ≠ key)).length := by
    rw [newerThan, hdrop, filter_cons_of_neg (by simp)]
  exact Nat.le_of_eq hcount.symm

theorem recordedWithin_push {added : List α} (hmem : key ∈ added) :
    RecordedWithin key (newerThan key order + (added.filter (fun other => other ≠ key)).length)
      (order ++ added) := by
  by_cases hold : key ∈ order
  · exact (recordedWithin_of_mem hold).append added
  · obtain ⟨before, after, rfl, hfirst⟩ := eq_append_cons_of_mem hmem
    refine ⟨order ++ before, after, by simp, ?_, ?_⟩
    · simp [hold, hfirst]
    · rw [filter_append, length_append, filter_cons_of_neg (by simp)]
      omega

theorem RecordedWithin.filter {count : Nat} (hrecorded : RecordedWithin key count order)
    {keep : α → Bool} (hkeep : keep key) :
    RecordedWithin key count (order.filter keep) := by
  obtain ⟨older, newer, rfl, hfirst, hcount⟩ := hrecorded
  refine ⟨older.filter keep, newer.filter keep, ?_, ?_, ?_⟩
  · rw [filter_append, filter_cons_of_pos hkeep]
  · exact fun hmem => hfirst (mem_of_mem_filter hmem)
  · exact Nat.le_trans (filter_sublist.filter _).length_le hcount

end Queue

/-! ## Maps -/

variable {α β : Type} [Ord α] [Std.TransOrd α]

def overflow (capacity : Nat) : List α → Std.ExtTreeMap α β → List α
  | [], _ => []
  | oldest :: rest, map =>
      if capacity < map.size then oldest :: overflow capacity rest (map.erase oldest) else []

theorem overflow_isPrefix (capacity : Nat) (order : List α) (map : Std.ExtTreeMap α β) :
    overflow capacity order map <+: order := by
  induction order generalizing map with
  | nil => exact nil_prefix
  | cons oldest rest ih =>
    unfold overflow
    split
    · exact cons_prefix_cons.mpr ⟨rfl, ih (map.erase oldest)⟩
    · exact nil_prefix

/-- The loop that takes keys from the front of the queue while the map is over capacity, with a side
effect for each of them.  It has no result where it would read the front of an empty queue. -/
def evictLoop {σ : Type} (capacity : Nat) (drop : σ → α → σ) :
    List α → Std.ExtTreeMap α β → σ → Option (List α × Std.ExtTreeMap α β × σ)
  | [], map, side => if capacity < map.size then none else some ([], map, side)
  | oldest :: rest, map, side =>
      if capacity < map.size then evictLoop capacity drop rest (map.erase oldest) (drop side oldest)
      else some (oldest :: rest, map, side)

variable {capacity : Nat} {order : List α} {map : Std.ExtTreeMap α β}

theorem evictLoop_eq_some {σ : Type} {drop : σ → α → σ} {left : List α} {kept : Std.ExtTreeMap α β}
    {side last : σ} (hloop : evictLoop capacity drop order map side = some (left, kept, last)) :
    (left = order.drop (overflow capacity order map).length ∧
      kept = (overflow capacity order map).foldl (fun map key => map.erase key) map ∧
      last = (overflow capacity order map).foldl drop side) ∧ kept.size ≤ capacity := by
  induction order generalizing map side with
  | nil =>
    unfold evictLoop at hloop
    split at hloop
    · cases hloop
    · rename_i hfits
      cases hloop
      exact ⟨⟨rfl, rfl, rfl⟩, Nat.le_of_not_lt hfits⟩
  | cons oldest rest ih =>
    unfold evictLoop at hloop
    unfold overflow
    split at hloop
    · rename_i hover
      rw [if_pos hover]
      exact ih hloop
    · rename_i hfits
      cases hloop
      rw [if_neg hfits]
      exact ⟨⟨rfl, rfl, rfl⟩, Nat.le_of_not_lt hfits⟩

variable [Std.LawfulEqOrd α]

theorem size_le_of_keys {keys : List α} (hkeys : ∀ key ∈ map, key ∈ keys) :
    map.size ≤ keys.length := by
  have hsubset : map.keys ⊆ keys := by
    intro key hmem
    exact hkeys key (Std.ExtTreeMap.mem_keys.mp hmem)
  have hlength := (subperm_of_subset map.nodup_keys hsubset).length_le
  rwa [Std.ExtTreeMap.length_keys] at hlength

theorem isSome_evictLoop {σ : Type} (capacity : Nat) (drop : σ → α → σ)
    (hkeys : ∀ key ∈ map, key ∈ order) (side : σ) :
    (evictLoop capacity drop order map side).isSome := by
  induction order generalizing map side with
  | nil =>
    have hsize : map.size ≤ 0 := size_le_of_keys hkeys
    unfold evictLoop
    rw [if_neg (by omega)]
    rfl
  | cons oldest rest ih =>
    unfold evictLoop
    split
    · refine ih ?_ _
      intro key hkey
      rw [Std.ExtTreeMap.mem_erase] at hkey
      rcases mem_cons.mp (hkeys key hkey.2) with rfl | hrest
      · exact absurd Std.ReflOrd.compare_self hkey.1
      · exact hrest
    · rfl

variable [DecidableEq α]

/-- An entry with fewer newer ones than the capacity does not leave, and only older ones do. -/
theorem overflow_older {older newer : List α} {kept : α}
    (hkeys : ∀ key ∈ map, key ∈ older ++ kept :: newer)
    (hfew : (newer.filter (fun key => key ≠ kept)).length < capacity) :
    overflow capacity (older ++ kept :: newer) map <+: older := by
  induction older generalizing map with
  | nil =>
    have hsize : map.size ≤ (kept :: newer.filter (fun key => key ≠ kept)).length := by
      refine size_le_of_keys ?_
      intro key hkey
      by_cases hkept : key = kept
      · rw [hkept]
        exact mem_cons_self
      · refine mem_cons_of_mem kept (mem_filter.mpr ⟨?_, by simpa using hkept⟩)
        rcases mem_cons.mp (hkeys key hkey) with hsame | hnewer
        · exact absurd hsame hkept
        · exact hnewer
    rw [length_cons] at hsize
    have hstops : overflow capacity (kept :: newer) map = [] := by
      rw [overflow, if_neg (by omega)]
    simp only [nil_append, hstops, nil_prefix]
  | cons first rest ih =>
    rw [cons_append, overflow]
    split
    · refine cons_prefix_cons.mpr ⟨rfl, ih ?_⟩
      intro key hkey
      rw [Std.ExtTreeMap.mem_erase] at hkey
      rcases mem_cons.mp (hkeys key hkey.2) with rfl | hrest
      · exact absurd Std.ReflOrd.compare_self hkey.1
      · exact hrest
    · exact nil_prefix

variable {key : α}

theorem mem_drop_of_evicted (hrecorded : ∀ key value, map[key]? = some value → key ∈ order)
    {value : β}
    (hkept : ((overflow capacity order map).foldl (fun map key => map.erase key) map)[key]? =
      some value) :
    key ∈ order.drop (overflow capacity order map).length := by
  rw [getElem?_foldl_erase] at hkept
  split at hkept
  · cases hkept
  · rename_i hstays
    obtain ⟨rest, hrest⟩ := overflow_isPrefix capacity order map
    have hmem : key ∈ overflow capacity order map ++ rest := by
      rw [hrest]
      exact hrecorded key value hkept
    nth_rewrite 2 [← hrest]
    rw [drop_left]
    exact (mem_append.mp hmem).resolve_left hstays

/-- An entry with fewer newer ones than the capacity stays in the queue and in the map. -/
theorem RecordedWithin.evict {count : Nat} (hrecorded : RecordedWithin key count order)
    (hkeys : ∀ key value, map[key]? = some value → key ∈ order) (hfew : count < capacity) :
    key ∉ overflow capacity order map ∧
      RecordedWithin key count (order.drop (overflow capacity order map).length) := by
  obtain ⟨older, newer, rfl, hfirst, hcount⟩ := hrecorded
  have hmem : ∀ other ∈ map, other ∈ older ++ key :: newer := by
    intro other hother
    obtain ⟨value, hvalue⟩ := Option.isSome_iff_exists.mp
      (Std.ExtTreeMap.mem_iff_isSome_getElem?.mp hother)
    exact hkeys other value hvalue
  obtain ⟨rest, hrest⟩ := overflow_older hmem (Nat.lt_of_le_of_lt hcount hfew)
  generalize overflow capacity (older ++ key :: newer) map = evicted at hrest ⊢
  refine ⟨?_, rest, newer, ?_, ?_, hcount⟩
  · intro hevicted
    exact hfirst (hrest ▸ mem_append_left rest hevicted)
  · rw [← hrest, append_assoc, drop_left]
  · intro hlater
    exact hfirst (hrest ▸ mem_append_right _ hlater)

def trimLowest (capacity : Nat) (map : Std.ExtTreeMap α β) : Std.ExtTreeMap α β :=
  (map.keys.take (map.size - capacity)).foldl (fun map key => map.erase key) map

theorem getElem?_trimLowest (capacity : Nat) (map : Std.ExtTreeMap α β) (key : α) :
    (trimLowest capacity map)[key]? =
      if key ∈ map.keys.take (map.size - capacity) then none else map[key]? :=
  getElem?_foldl_erase map _ key

theorem getElem?_trimLowest_of_few
    (hfew : (map.keys.filter (fun other => compare key other = .lt)).length < capacity) :
    (trimLowest capacity map)[key]? = map[key]? := by
  rw [getElem?_trimLowest, if_neg]
  intro hlow
  have hsplit : map.keys.take (map.size - capacity) ++ map.keys.drop (map.size - capacity) =
      map.keys := take_append_drop _ _
  have hordered := map.ordered_keys
  rw [← hsplit, pairwise_append] at hordered
  have habove : map.keys.drop (map.size - capacity) =
      (map.keys.drop (map.size - capacity)).filter (fun other => compare key other = .lt) := by
    refine (filter_eq_self.mpr ?_).symm
    intro other hother
    simpa using hordered.2.2 key hlow other hother
  have hlength : (map.keys.drop (map.size - capacity)).length ≤
      (map.keys.filter (fun other => compare key other = .lt)).length := by
    rw [habove]
    exact ((drop_sublist _ _).filter _).length_le
  have hsome : 0 < map.size - capacity := by
    rcases Nat.eq_zero_or_pos (map.size - capacity) with hzero | hpositive
    · rw [hzero] at hlow
      cases hlow
    · exact hpositive
  rw [length_drop, Std.ExtTreeMap.length_keys] at hlength
  omega

end Kerrigan.Lib
