import Mathlib.Data.List.Basic
import Kerrigan.Lib.Outcome

/-!
# The recovery ledger

The values of the JSON files of the recovery manager, and the ledger: an object that is read as a whole
and written anew with some of its members replaced.
-/

namespace Kerrigan.Recovery

open List

/-! ## Values -/

/-- A number: a 64-bit integer, or any other number as it is written. -/
inductive JsonNumber where
  | integer (value : Int)
  | other (text : String)
  deriving DecidableEq

inductive UniValue where
  | null
  | bool (value : Bool)
  | num (value : JsonNumber)
  | str (value : String)
  | arr (values : List UniValue)
  | obj (members : List (String × UniValue))

/-- The members of an object in their order. -/
abbrev JsonObject := List (String × UniValue)

namespace JsonObject

variable (object : JsonObject)

def get (key : String) : UniValue := (object.lookup key).getD .null

def getKeys : List String := object.map Prod.fst

def pushKV (object : JsonObject) (key : String) (value : UniValue) : JsonObject :=
  match object with
  | [] => [(key, value)]
  | member :: rest =>
      if member.1 = key then (key, value) :: rest else member :: pushKV rest key value

theorem get_cons (member : String × UniValue) (rest : JsonObject) (key : String) :
    get (member :: rest) key = if member.1 = key then member.2 else get rest key := by
  unfold get
  rw [lookup_cons]
  by_cases hkey : member.1 = key
  · rw [if_pos hkey, beq_iff_eq.mpr hkey.symm]
    rfl
  · rw [if_neg hkey, beq_eq_false_iff_ne.mpr (Ne.symm hkey)]

@[simp] theorem get_pushKV_self (key : String) (value : UniValue) :
    (object.pushKV key value).get key = value := by
  induction object with
  | nil => rw [pushKV, get_cons, if_pos rfl]
  | cons member rest ih =>
    rw [pushKV]
    split
    · rw [get_cons, if_pos rfl]
    · next hkey => rw [get_cons, if_neg hkey, ih]

theorem get_pushKV_of_ne {key other : String} (value : UniValue) (hother : key ≠ other) :
    (object.pushKV key value).get other = object.get other := by
  induction object with
  | nil => rw [pushKV, get_cons, if_neg hother]
  | cons member rest ih =>
    rw [pushKV]
    split
    · next hkey => rw [get_cons, if_neg hother, get_cons, if_neg (hkey ▸ hother)]
    · rw [get_cons, get_cons, ih]

def without (dropped : List String) : JsonObject :=
  object.getKeys.foldl
    (fun out key => if key ∈ dropped then out else pushKV out key (object.get key)) []

theorem get_without {dropped : List String} {key : String} (hkept : key ∉ dropped) :
    (object.without dropped).get key = object.get key := by
  -- Over a list of keys the copy holds the value of a key from its first occurrence on.
  have hcopied : ∀ (keys : List String) (out : JsonObject),
      (keys.foldl (fun out key => if key ∈ dropped then out else pushKV out key (object.get key))
        out).get key = if key ∈ keys then object.get key else out.get key := by
    intro keys
    induction keys with
    | nil => intro out; rfl
    | cons first rest ih =>
      intro out
      rw [foldl_cons, ih]
      by_cases hrest : key ∈ rest
      · rw [if_pos hrest, if_pos (mem_cons_of_mem first hrest)]
      · rw [if_neg hrest]
        by_cases hfirst : first = key
        · rw [hfirst, if_neg hkept, get_pushKV_self, if_pos mem_cons_self]
        · rw [if_neg (fun hmem => hrest ((mem_cons.mp hmem).resolve_left (Ne.symm hfirst)))]
          split
          · rfl
          · exact get_pushKV_of_ne out (object.get first) hfirst
  rw [without, hcopied]
  by_cases hkey : key ∈ object.getKeys
  · rw [if_pos hkey]
  · rw [if_neg hkey]
    have habsent : object.lookup key = none := by
      rw [lookup_eq_none_iff]
      intro member hmember
      rw [bne_iff_ne]
      rintro rfl
      exact hkey (mem_map_of_mem hmember)
    rw [get, get, habsent]
    rfl

end JsonObject

namespace UniValue

variable (json : UniValue)

def get (key : String) : UniValue :=
  match json with
  | .obj members => JsonObject.get members key
  | _ => .null

def IsArray : Prop := ∃ values, json = .arr values

def elements : UniValue → List UniValue
  | .arr values => values
  | _ => []

theorem isArray_iff : json.IsArray ↔ json = .arr json.elements := by
  constructor
  · rintro ⟨values, rfl⟩
    rfl
  · intro harr
    exact ⟨_, harr⟩

end UniValue

/-! ## Files -/

inductive JsonFile where
  | absent
  | unparseable
  | content (json : UniValue)

def readJsonFile : JsonFile → Option JsonObject
  | .content (.obj members) => some members
  | _ => none

def emptyLedger : JsonObject :=
  [("version", .num (.integer 1)), ("attempts", .arr []), ("wipes", .arr []),
    ("repair_state", .str "idle")]

def readLedger (file : JsonFile) : JsonObject := (readJsonFile file).getD emptyLedger

@[simp] theorem readLedger_content (members : JsonObject) :
    readLedger (.content (.obj members)) = members := rfl

variable (ledger : JsonObject)

def repairStateOf : String :=
  match ledger.get "repair_state" with
  | .str state => state
  | _ => "idle"

def setLedgerRepairState (file : JsonFile) (state : String) (now : Int) : JsonFile :=
  let ledger := readLedger file
  let out := ledger.without ["repair_state", "repair_state_ts"]
  let out := out.pushKV "repair_state" (.str state)
  let out := out.pushKV "repair_state_ts" (.num (.integer now))
  .content (.obj out)

def entryTime (entry : UniValue) : Except String (Option Int) :=
  match entry.get "ts" with
  | .num (.integer ts) => .ok (some ts)
  | .num (.other _) => .error "JSON integer out of range"
  | _ => .ok none

def countEntry (windowSecs now : Int) (count : Nat) (entry : UniValue) : Except String Nat := do
  match ← entryTime entry with
  | some ts => return if now - ts ≤ windowSecs then count + 1 else count
  | none => return count

def countLedgerEntriesInWindow (key : String) (windowSecs now : Int) : Except String Nat :=
  (ledger.get key).elements.foldlM (countEntry windowSecs now) 0

def ReadableTimes (entries : List UniValue) : Prop :=
  ∀ entry ∈ entries, ∃ time, entryTime entry = .ok time

theorem foldlM_countEntry_iff (windowSecs now : Int) (entries : List UniValue) (start : Nat) :
    (∃ count, entries.foldlM (countEntry windowSecs now) start = .ok count) ↔
      ReadableTimes entries := by
  induction entries generalizing start with
  | nil => exact ⟨fun _ _ hmem => absurd hmem not_mem_nil, fun _ => ⟨start, rfl⟩⟩
  | cons entry rest ih =>
    rw [foldlM_cons, ReadableTimes, forall_mem_cons]
    unfold countEntry
    cases htime : entryTime entry with
    | error reason =>
      constructor
      · rintro ⟨count, hcount⟩
        cases hcount
      · rintro ⟨⟨time, hread⟩, -⟩
        cases hread
    | ok time =>
      have hrest : (∃ time', (Except.ok time : Except String (Option Int)) = .ok time') ∧
          ReadableTimes rest ↔ ReadableTimes rest := and_iff_right ⟨time, rfl⟩
      cases time with
      | none => exact (ih _).trans hrest.symm
      | some ts => exact (ih _).trans hrest.symm

theorem count_eq_ok_iff (key : String) (windowSecs now : Int) :
    (∃ count, countLedgerEntriesInWindow ledger key windowSecs now = .ok count) ↔
      ReadableTimes (ledger.get key).elements :=
  foldlM_countEntry_iff windowSecs now _ 0

end Kerrigan.Recovery
