import Mathlib.Data.Nat.Basic
import Mathlib.Data.Vector.Basic
import Mathlib.Algebra.Ring.Int.Defs
import Mathlib.Algebra.Ring.Nat

/-!
# Byte streams

A reader takes a value off the front of a stream of bytes or fails.  `Reads` says that a reader
takes exactly the given bytes for the given value, whatever follows; it composes along the steps of
a reader.  Numbers are little-endian, and the length of a vector is a compact size.
-/

namespace Kerrigan.Lib

open List List.Vector

variable {α β : Type}

abbrev Reader (α : Type) := StateT (List UInt8) (Except String) α

def Reads (reader : Reader α) (bytes : List UInt8) (value : α) : Prop :=
  ∀ rest, reader.run (bytes ++ rest) = .ok (value, rest)

namespace Reads

theorem pure (value : α) : Reads (Pure.pure value) [] value := fun _ => rfl

variable {reader : Reader α} {next : α → Reader β} {bytes : List UInt8} {first : α} {second : β}

theorem bind {more : List UInt8} (hfirst : Reads reader bytes first)
    (hsecond : Reads (next first) more second) :
    Reads (reader >>= next) (bytes ++ more) second := by
  intro rest
  rw [StateT.run_bind, append_assoc, hfirst]
  exact hsecond rest

theorem bind_nil {more : List UInt8} (hfirst : Reads reader [] first)
    (hsecond : Reads (next first) more second) :
    Reads (reader >>= next) more second := hfirst.bind hsecond

theorem bind_last (hfirst : Reads reader bytes first) (hsecond : Reads (next first) [] second) :
    Reads (reader >>= next) bytes second := by
  have hboth := hfirst.bind hsecond
  rw [List.append_nil] at hboth
  exact hboth

theorem map (f : α → β) (hfirst : Reads reader bytes first) :
    Reads (reader >>= fun value => Pure.pure (f value)) bytes (f first) := by
  intro rest
  rw [StateT.run_bind, hfirst]
  rfl

theorem map_eq {f : α → β} (hfirst : Reads reader bytes first) (hsecond : f first = second) :
    Reads (reader >>= fun value => Pure.pure (f value)) bytes second :=
  hsecond ▸ hfirst.map f

/-- Two writings that one reader takes off the same stream are the same. -/
theorem unique {bytes' rest rest' : List UInt8} {value value' : α}
    (hread : Reads reader bytes value) (hread' : Reads reader bytes' value')
    (hsame : bytes ++ rest = bytes' ++ rest') : value = value' ∧ rest = rest' := by
  have hruns : (Except.ok (value, rest) : Except String (α × List UInt8)) = .ok (value', rest') := by
    rw [← hread rest, hsame, hread' rest']
  injection hruns with hpair
  exact Prod.mk.inj hpair

end Reads

open Reads

variable {bytes : List UInt8} {reader : Reader α} {failure : String}

/-- What a reader that fails on an empty stream takes is not empty. -/
theorem Reads.ne_nil {value : α} (hread : Reads reader bytes value)
    (hneeds : reader.run [] = .error failure) : bytes ≠ [] := by
  rintro rfl
  have hempty := hread []
  rw [List.append_nil, hneeds] at hempty
  cases hempty

variable {write : α → List UInt8} {values : List α}

/-- The readable parts of values that are written one after another are determined by the bytes. -/
theorem map_eq_of_flatMap_eq {reader : Reader β} {part : α → β}
    (hreads : ∀ value, Reads reader (write value) (part value))
    (hneeds : reader.run [] = .error failure) {values' : List α}
    (hsame : values.flatMap write = values'.flatMap write) :
    values.map part = values'.map part := by
  induction values generalizing values' with
  | nil =>
    cases values' with
    | nil => rfl
    | cons value' rest' =>
      have hempty : write value' = [] := (append_eq_nil_iff.mp hsame.symm).1
      exact absurd hempty ((hreads value').ne_nil hneeds)
  | cons value rest ih =>
    cases values' with
    | nil =>
      have hempty : write value = [] := (append_eq_nil_iff.mp hsame).1
      exact absurd hempty ((hreads value).ne_nil hneeds)
    | cons value' rest' =>
      obtain ⟨hvalue, hrest⟩ := (hreads value).unique (hreads value') hsame
      rw [List.map_cons, List.map_cons, hvalue, ih hrest]

def ensure (condition : Prop) [Decidable condition] (failure : String) : Reader Unit :=
  if condition then pure () else throw failure

variable {condition : Prop}

theorem reads_ensure [Decidable condition] (hcondition : condition) (failure : String) :
    Reads (ensure condition failure) [] () := by
  rw [ensure, if_pos hcondition]
  exact pure ()

/-- A part of the stream that is there only under a condition. -/
def readOptional (sent : Bool) (reader : Reader α) (absent : α) : Reader α :=
  if sent then reader else pure absent

def writeOptional (sent : Bool) (bytes : List UInt8) : List UInt8 := if sent then bytes else []

theorem reads_readOptional {sent : Bool} {value : α} (absent : α)
    (hread : sent = true → Reads reader bytes value) :
    Reads (readOptional sent reader absent) (writeOptional sent bytes)
      (if sent then value else absent) := by
  cases sent with
  | true => exact hread rfl
  | false => exact pure absent

/-! ## Numbers -/

def readByte : Reader UInt8 := do
  match ← get with
  | [] => throw "end of data"
  | byte :: rest =>
      set rest
      pure byte

theorem reads_readByte (byte : UInt8) : Reads readByte [byte] byte := fun _ => rfl

/-- The number in the given count of bytes, least significant first. -/
def writeNumber : Nat → Nat → List UInt8
  | 0, _ => []
  | count + 1, value => UInt8.ofNat (value % 256) :: writeNumber count (value / 256)

def readNumber : Nat → Reader Nat
  | 0 => pure 0
  | count + 1 => do
      let byte ← readByte
      let rest ← readNumber count
      pure (byte.toNat + 256 * rest)

variable {count : Nat} {value : Nat}

theorem reads_readNumber (hfits : value < 256 ^ count) :
    Reads (readNumber count) (writeNumber count value) value := by
  induction count generalizing value with
  | zero =>
    obtain rfl : value = 0 := by simpa using hfits
    exact pure 0
  | succ count ih =>
    have hrest : value / 256 < 256 ^ count := by
      rw [Nat.div_lt_iff_lt_mul (by omega), ← Nat.pow_succ]
      exact hfits
    have hvalue : (UInt8.ofNat (value % 256)).toNat + 256 * (value / 256) = value := by
      rw [UInt8.toNat_ofNat_of_lt' (show value % 256 < UInt8.size from Nat.mod_lt value (by decide))]
      exact Nat.mod_add_div value 256
    exact bind (reads_readByte _) ((ih hrest).map_eq hvalue)

def writeUInt16 (value : UInt16) : List UInt8 := writeNumber 2 value.toNat

def readUInt16 : Reader UInt16 := do
  let value ← readNumber 2
  pure (UInt16.ofNat value)

theorem reads_readUInt16 (value : UInt16) : Reads readUInt16 (writeUInt16 value) value :=
  (reads_readNumber value.toNat_lt).map_eq UInt16.ofNat_toNat

def writeUInt32 (value : UInt32) : List UInt8 := writeNumber 4 value.toNat

def readUInt32 : Reader UInt32 := do
  let value ← readNumber 4
  pure (UInt32.ofNat value)

theorem reads_readUInt32 (value : UInt32) : Reads readUInt32 (writeUInt32 value) value :=
  (reads_readNumber value.toNat_lt).map_eq UInt32.ofNat_toNat

def writeUInt64 (value : UInt64) : List UInt8 := writeNumber 8 value.toNat

def readUInt64 : Reader UInt64 := do
  let value ← readNumber 8
  pure (UInt64.ofNat value)

theorem reads_readUInt64 (value : UInt64) : Reads readUInt64 (writeUInt64 value) value :=
  (reads_readNumber value.toNat_lt).map_eq UInt64.ofNat_toNat

def writeInt64 (value : Int64) : List UInt8 := writeUInt64 value.toUInt64

def readInt64 : Reader Int64 := do
  let value ← readUInt64
  pure value.toInt64

theorem reads_readInt64 (value : Int64) : Reads readInt64 (writeInt64 value) value :=
  (reads_readUInt64 value.toUInt64).map UInt64.toInt64

def writeInt32 (value : Int32) : List UInt8 := writeUInt32 value.toUInt32

def readInt32 : Reader Int32 := do
  let value ← readUInt32
  pure value.toInt32

theorem reads_readInt32 (value : Int32) : Reads readInt32 (writeInt32 value) value :=
  (reads_readUInt32 value.toUInt32).map UInt32.toInt32

def writeInt16 (value : Int) : List UInt8 := writeNumber 2 (value % 2 ^ 16).toNat

def readInt16 : Reader Int := do
  let value ← readNumber 2
  pure (if value < 2 ^ 15 then (value : Int) else value - 2 ^ 16)

theorem reads_readInt16 {value : Int} (hlow : -2 ^ 15 ≤ value) (hhigh : value < 2 ^ 15) :
    Reads readInt16 (writeInt16 value) value := by
  have hfits : (value % 2 ^ 16).toNat < 256 ^ 2 := by omega
  refine (reads_readNumber hfits).map_eq ?_
  split <;> omega

/-! ## Numbers of variable length -/

/-- The bytes of a `VARINT` before the last; each stands for seven bits of the number plus one. -/
def varIntHead (value : Nat) : List UInt8 :=
  if value < 128 then []
  else varIntHead (value / 128 - 1) ++ [UInt8.ofNat (128 + (value / 128 - 1) % 128)]
  termination_by value
  decreasing_by omega

def writeVarInt (value : Nat) : List UInt8 := varIntHead value ++ [UInt8.ofNat (value % 128)]

def readVarIntFrom (limit : Nat) : Nat → List UInt8 → Except String (Nat × List UInt8)
  | _, [] => .error "end of data"
  | n, chData :: rest =>
      if limit / 128 < n then .error "ReadVarInt(): size too large"
      else if chData.toNat < 128 then .ok (n * 128 + chData.toNat % 128, rest)
      else if n * 128 + chData.toNat % 128 = limit then .error "ReadVarInt(): size too large"
      else readVarIntFrom limit (n * 128 + chData.toNat % 128 + 1) rest

def readVarInt (limit : Nat) : Reader Nat := readVarIntFrom limit 0

variable {limit : Nat}

/-- The head of a number leaves the reader with the number without its last seven bits. -/
theorem readVarIntFrom_varIntHead (hlimit : value ≤ limit) (rest : List UInt8) :
    readVarIntFrom limit 0 (varIntHead value ++ rest) =
      readVarIntFrom limit (value / 128) rest := by
  induction value using Nat.strongRecOn generalizing rest with
  | ind value ih =>
    rw [varIntHead]
    split
    next hsmall => rw [Nat.div_eq_of_lt hsmall, nil_append]
    next hlarge =>
      have hbyte : (UInt8.ofNat (128 + (value / 128 - 1) % 128)).toNat =
          128 + (value / 128 - 1) % 128 :=
        UInt8.toNat_ofNat_of_lt' (show 128 + (value / 128 - 1) % 128 < 256 by omega)
      rw [append_assoc, ih _ (by omega) (by omega), singleton_append, readVarIntFrom,
        hbyte, if_neg (by omega), if_neg (by omega), if_neg (by omega)]
      congr 1
      omega

theorem reads_readVarInt (hlimit : value ≤ limit) :
    Reads (readVarInt limit) (writeVarInt value) value := by
  intro rest
  have hbyte : (UInt8.ofNat (value % 128)).toNat = value % 128 :=
    UInt8.toNat_ofNat_of_lt' (show value % 128 < 256 by omega)
  change readVarIntFrom limit 0 (writeVarInt value ++ rest) = _
  rw [writeVarInt, append_assoc, readVarIntFrom_varIntHead hlimit, singleton_append,
    readVarIntFrom, hbyte, if_neg (by omega), if_pos (by omega)]
  congr 2
  omega

/-! ## Vectors -/

def readBytes : Nat → Reader (List UInt8)
  | 0 => pure []
  | count + 1 => do
      let byte ← readByte
      let rest ← readBytes count
      pure (byte :: rest)

theorem reads_readBytes (bytes : List UInt8) : Reads (readBytes bytes.length) bytes bytes := by
  induction bytes with
  | nil => exact pure []
  | cons byte rest ih =>
    exact bind (reads_readByte byte) (ih.map _)

def readFixed : (count : Nat) → Reader (List.Vector UInt8 count)
  | 0 => pure nil
  | count + 1 => do
      let byte ← readByte
      let rest ← readFixed count
      pure (byte ::ᵥ rest)

theorem reads_readFixed (bytes : List.Vector UInt8 count) :
    Reads (readFixed count) bytes.toList bytes := by
  induction count with
  | zero =>
    rw [List.Vector.eq_nil bytes]
    exact pure _
  | succ count ih =>
    rw [← bytes.cons_head_tail, List.Vector.toList_cons]
    exact bind (reads_readByte _) ((ih bytes.tail).map _)

def readElements (element : Reader α) : Nat → Reader (List α)
  | 0 => pure []
  | count + 1 => do
      let first ← element
      let rest ← readElements element count
      pure (first :: rest)

variable {element : Reader α}

theorem reads_readElements (hreads : ∀ value ∈ values, Reads element (write value) value) :
    Reads (readElements element values.length) (values.flatMap write) values := by
  induction values with
  | nil => exact pure []
  | cons value rest ih =>
    obtain ⟨hvalue, hrest⟩ := forall_mem_cons.mp hreads
    exact bind hvalue (map _ (ih hrest))

def writeCompactSize (size : Nat) : List UInt8 :=
  if size < 253 then writeNumber 1 size
  else if size < 2 ^ 16 then 253 :: writeNumber 2 size
  else if size < 2 ^ 32 then 254 :: writeNumber 4 size
  else 255 :: writeNumber 8 size

/-- The largest length that a stream may announce. -/
def maxSize : Nat := 0x02000000

def readSizeAfter (chSize : UInt8) : Reader Nat :=
  if chSize < 253 then pure chSize.toNat
  else if chSize = 253 then do
    let size ← readNumber 2
    ensure (253 ≤ size) "non-canonical ReadCompactSize()"
    pure size
  else if chSize = 254 then do
    let size ← readNumber 4
    ensure (2 ^ 16 ≤ size) "non-canonical ReadCompactSize()"
    pure size
  else do
    let size ← readNumber 8
    ensure (2 ^ 32 ≤ size) "non-canonical ReadCompactSize()"
    pure size

def readCompactSize : Reader Nat := do
  let chSize ← readByte
  let size ← readSizeAfter chSize
  ensure (size ≤ maxSize) "ReadCompactSize(): size too large"
  pure size

variable {size : Nat}

theorem reads_canonical {least : Nat} (hfits : size < 256 ^ count) (hleast : least ≤ size)
    (failure : String) :
    Reads (do let size ← readNumber count; ensure (least ≤ size) failure; pure size)
      (writeNumber count size) size := by
  refine bind_last (reads_readNumber hfits) ?_
  exact (reads_ensure hleast failure).bind_nil (pure size)

theorem exists_writeCompactSize (hsize : size < 2 ^ 64) :
    ∃ chSize tail, writeCompactSize size = [chSize] ++ tail ∧
      Reads (readSizeAfter chSize) tail size := by
  unfold writeCompactSize
  by_cases hone : size < 253
  · have hbyte : (UInt8.ofNat (size % 256)).toNat = size := by
      rw [UInt8.toNat_ofNat_of_lt' (show size % 256 < UInt8.size from Nat.mod_lt size (by decide))]
      omega
    refine ⟨UInt8.ofNat (size % 256), [], ?_, ?_⟩
    · rw [if_pos hone]
      rfl
    · have hlow : UInt8.ofNat (size % 256) < 253 := by
        rw [UInt8.lt_iff_toNat_lt, hbyte]
        exact hone
      have hread := pure (UInt8.ofNat (size % 256)).toNat
      rw [hbyte] at hread
      rw [readSizeAfter, if_pos hlow, hbyte]
      exact hread
  · rw [if_neg hone]
    by_cases htwo : size < 2 ^ 16
    · rw [if_pos htwo]
      exact ⟨253, writeNumber 2 size, rfl, reads_canonical htwo (by omega) _⟩
    · rw [if_neg htwo]
      by_cases hfour : size < 2 ^ 32
      · rw [if_pos hfour]
        exact ⟨254, writeNumber 4 size, rfl, reads_canonical hfour (by omega) _⟩
      · rw [if_neg hfour]
        exact ⟨255, writeNumber 8 size, rfl, reads_canonical hsize (by omega) _⟩

theorem reads_readCompactSize (hsize : size ≤ maxSize) :
    Reads readCompactSize (writeCompactSize size) size := by
  have hmax : maxSize < 2 ^ 64 := by decide
  obtain ⟨chSize, tail, hwrite, htail⟩ := exists_writeCompactSize (hsize.trans_lt hmax)
  rw [hwrite]
  refine bind (reads_readByte chSize) (bind_last htail ?_)
  exact (reads_ensure hsize _).bind_nil (pure size)

def writeVector (bytes : List UInt8) : List UInt8 := writeCompactSize bytes.length ++ bytes

def readVector (limit : Nat) : Reader (List UInt8) := do
  let size ← readCompactSize
  ensure (size ≤ limit) "Vector length limit exceeded"
  readBytes size

theorem reads_readVector (hlimit : bytes.length ≤ limit) (hsize : bytes.length ≤ maxSize) :
    Reads (readVector limit) (writeVector bytes) bytes := by
  refine bind (reads_readCompactSize hsize) ?_
  exact (reads_ensure hlimit _).bind_nil (reads_readBytes bytes)

def readUnlimitedVector : Reader (List UInt8) := do
  let chSize ← readByte
  let size ← readSizeAfter chSize
  readBytes size

theorem reads_readUnlimitedVector (hsize : bytes.length < 2 ^ 64) :
    Reads readUnlimitedVector (writeVector bytes) bytes := by
  obtain ⟨chSize, tail, hwrite, htail⟩ := exists_writeCompactSize hsize
  rw [writeVector, hwrite, append_assoc]
  exact (reads_readByte chSize).bind (htail.bind (reads_readBytes bytes))

def writeElements (write : α → List UInt8) (values : List α) : List UInt8 :=
  writeCompactSize values.length ++ values.flatMap write

def readLimitedElements (limit : Nat) (element : Reader α) : Reader (List α) := do
  let size ← readCompactSize
  ensure (size ≤ limit) "Vector length limit exceeded"
  readElements element size

theorem reads_readLimitedElements (hreads : ∀ value ∈ values, Reads element (write value) value)
    (hlimit : values.length ≤ limit) (hsize : values.length ≤ maxSize) :
    Reads (readLimitedElements limit element) (writeElements write values) values := by
  refine bind (reads_readCompactSize hsize) ?_
  exact (reads_ensure hlimit _).bind_nil (reads_readElements hreads)

/-! ## Canonical readings

The converse of `Reads`: whatever the reader accepts is what is written for its value. -/

def Canonical (reader : Reader α) (write : α → List UInt8) : Prop :=
  ∀ ⦃stream value rest⦄, reader.run stream = .ok (value, rest) → stream = write value ++ rest

variable {stream : List UInt8}

theorem run_bind_eq_ok {next : α → Reader β} {result : β × List UInt8}
    (hrun : (reader >>= next).run stream = .ok result) :
    ∃ value rest, reader.run stream = .ok (value, rest) ∧ (next value).run rest = .ok result := by
  rw [StateT.run_bind] at hrun
  cases hfirst : reader.run stream with
  | error failure =>
    rw [hfirst] at hrun
    cases hrun
  | ok pair =>
    rw [hfirst] at hrun
    exact ⟨pair.1, pair.2, rfl, hrun⟩

theorem run_readOptional_eq_ok {sent : Bool} {absent : α} {next : α → Reader β}
    {result : β × List UInt8} (hrun : (readOptional sent reader absent >>= next).run stream =
      .ok result) :
    ∃ value rest, (if sent then value else absent) = value ∧
      (next value).run rest = .ok result := by
  cases sent with
  | true =>
    obtain ⟨value, rest, -, hnext⟩ := run_bind_eq_ok hrun
    exact ⟨value, rest, rfl, hnext⟩
  | false => exact ⟨absent, stream, rfl, hrun⟩

theorem run_ensure_eq_ok [Decidable condition] {next : Unit → Reader β} {result : β × List UInt8}
    (hrun : (ensure condition failure >>= next).run stream = .ok result) :
    condition ∧ (next ()).run stream = .ok result := by
  unfold ensure at hrun
  split at hrun
  next hcondition => exact ⟨hcondition, hrun⟩
  next => cases hrun

theorem canonical_readByte : Canonical readByte (fun byte => [byte]) := by
  intro stream byte rest hrun
  cases stream with
  | nil => cases hrun
  | cons first tail =>
    cases hrun
    rfl

variable {rest : List UInt8}

theorem readNumber_eq_ok (hrun : (readNumber count).run stream = .ok (value, rest)) :
    value < 256 ^ count ∧ stream = writeNumber count value ++ rest := by
  induction count generalizing stream value with
  | zero =>
    cases hrun
    exact ⟨Nat.one_pos, rfl⟩
  | succ count ih =>
    obtain ⟨byte, tail, hbyte, hrun⟩ := run_bind_eq_ok hrun
    obtain ⟨high, last, hhigh, hrun⟩ := run_bind_eq_ok hrun
    cases hrun
    obtain ⟨hfits, htail⟩ := ih hhigh
    have hlow : byte.toNat < 256 := byte.toNat_lt
    have hmod : (byte.toNat + 256 * high) % 256 = byte.toNat := by omega
    have hdiv : (byte.toNat + 256 * high) / 256 = high := by omega
    refine ⟨?_, ?_⟩
    · omega
    · rw [canonical_readByte hbyte, htail, writeNumber, hmod, hdiv, UInt8.ofNat_toNat]
      rfl

theorem canonical_readUInt16 : Canonical readUInt16 writeUInt16 := by
  intro stream value rest hrun
  obtain ⟨number, last, hnumber, hrun⟩ := run_bind_eq_ok hrun
  cases hrun
  obtain ⟨hfits, hstream⟩ := readNumber_eq_ok hnumber
  rw [hstream, writeUInt16, UInt16.toNat_ofNat_of_lt' hfits]

theorem canonical_readInt64 : Canonical readInt64 writeInt64 := by
  intro stream value rest hrun
  obtain ⟨unsigned, last, hunsigned, hrun⟩ := run_bind_eq_ok hrun
  cases hrun
  obtain ⟨number, last, hnumber, hrun⟩ := run_bind_eq_ok hunsigned
  cases hrun
  obtain ⟨hfits, hstream⟩ := readNumber_eq_ok hnumber
  rw [hstream, writeInt64, UInt64.toUInt64_toInt64, writeUInt64, UInt64.toNat_ofNat_of_lt' hfits]

theorem canonical_readFixed : Canonical (readFixed count) toList := by
  induction count with
  | zero =>
    intro stream bytes rest hrun
    cases hrun
    rfl
  | succ count ih =>
    intro stream bytes rest hrun
    obtain ⟨byte, tail, hbyte, hrun⟩ := run_bind_eq_ok hrun
    obtain ⟨more, last, hmore, hrun⟩ := run_bind_eq_ok hrun
    cases hrun
    rw [canonical_readByte hbyte, ih hmore, toList_cons]
    rfl

theorem readElements_eq_ok (hcanonical : Canonical element write)
    (hrun : (readElements element count).run stream = .ok (values, rest)) :
    values.length = count ∧ stream = values.flatMap write ++ rest := by
  induction count generalizing stream values with
  | zero =>
    cases hrun
    exact ⟨rfl, rfl⟩
  | succ count ih =>
    obtain ⟨value, tail, hvalue, hrun⟩ := run_bind_eq_ok hrun
    obtain ⟨more, last, hmore, hrun⟩ := run_bind_eq_ok hrun
    cases hrun
    obtain ⟨hlength, htail⟩ := ih hmore
    refine ⟨congrArg Nat.succ hlength, ?_⟩
    rw [hcanonical hvalue, htail, flatMap_cons, append_assoc]

theorem canonical_eq_ok {least : Nat}
    (hrun : (do let size ← readNumber count; ensure (least ≤ size) failure; pure size :
      Reader Nat).run stream = .ok (size, rest)) :
    least ≤ size ∧ size < 256 ^ count ∧ stream = writeNumber count size ++ rest := by
  obtain ⟨number, last, hnumber, hrun⟩ := run_bind_eq_ok hrun
  obtain ⟨hleast, hrun⟩ := run_ensure_eq_ok hrun
  cases hrun
  exact ⟨hleast, readNumber_eq_ok hnumber⟩

theorem readSizeAfter_eq_ok {chSize : UInt8}
    (hrun : (readSizeAfter chSize).run stream = .ok (size, rest)) :
    chSize :: stream = writeCompactSize size ++ rest := by
  unfold readSizeAfter at hrun
  unfold writeCompactSize
  split at hrun
  next hone =>
    cases hrun
    have hsize : chSize.toNat < 253 := UInt8.lt_iff_toNat_lt.mp hone
    have hmod : chSize.toNat % 256 = chSize.toNat := Nat.mod_eq_of_lt (by omega)
    rw [if_pos hsize, writeNumber, hmod, UInt8.ofNat_toNat]
    rfl
  next hone =>
    split at hrun
    next htwo =>
      obtain ⟨hleast, hfits, hstream⟩ := canonical_eq_ok hrun
      rw [if_neg (by omega), if_pos (show size < 2 ^ 16 from hfits), hstream, htwo]
      rfl
    next htwo =>
      split at hrun
      next hfour =>
        obtain ⟨hleast, hfits, hstream⟩ := canonical_eq_ok hrun
        rw [if_neg (by omega), if_neg (by omega), if_pos (show size < 2 ^ 32 from hfits), hstream,
          hfour]
        rfl
      next hfour =>
        have height : chSize = 255 := by
          have hlimit := chSize.toNat_lt
          rw [UInt8.lt_iff_toNat_lt] at hone
          rw [← UInt8.toNat_inj] at htwo hfour ⊢
          simp only [UInt8.reduceToNat] at hone htwo hfour ⊢
          omega
        obtain ⟨hleast, hfits, hstream⟩ := canonical_eq_ok hrun
        rw [if_neg (by omega), if_neg (by omega), if_neg (by omega), hstream, height]
        rfl

theorem canonical_readCompactSize : Canonical readCompactSize writeCompactSize := by
  intro stream size rest hrun
  obtain ⟨chSize, tail, hchSize, hrun⟩ := run_bind_eq_ok hrun
  obtain ⟨number, last, hsize, hrun⟩ := run_bind_eq_ok hrun
  obtain ⟨-, hrun⟩ := run_ensure_eq_ok hrun
  cases hrun
  rw [canonical_readByte hchSize]
  exact readSizeAfter_eq_ok hsize

theorem readLimitedElements_eq_ok (hcanonical : Canonical element write)
    (hrun : (readLimitedElements limit element).run stream = .ok (values, rest)) :
    values.length ≤ limit ∧ stream = writeElements write values ++ rest := by
  obtain ⟨size, tail, hsize, hrun⟩ := run_bind_eq_ok hrun
  obtain ⟨hlimit, hrun⟩ := run_ensure_eq_ok hrun
  obtain ⟨hlength, hstream⟩ := readElements_eq_ok hcanonical hrun
  refine ⟨hlength.trans_le hlimit, ?_⟩
  rw [canonical_readCompactSize hsize, hstream, writeElements, hlength, append_assoc]

theorem Reads.run_bind {next : α → Reader β} {value : α} (hread : Reads reader bytes value)
    (rest : List UInt8) :
    (reader >>= next).run (bytes ++ rest) = (next value).run rest := by
  rw [StateT.run_bind, hread]
  rfl

theorem run_ensure_eq_error [Decidable condition] (hfails : ¬ condition) (failure : String)
    (next : Unit → Reader β) (stream : List UInt8) :
    (ensure condition failure >>= next).run stream = .error failure := by
  rw [ensure, if_neg hfails]
  rfl

/-- A vector that is too long fails at its length, whatever follows. -/
theorem readLimitedElements_eq_error (element : Reader α) (hsize : size < 2 ^ 64)
    (hlimit : limit < size) (rest : List UInt8) :
    (readLimitedElements limit element).run (writeCompactSize size ++ rest) =
      .error (if size ≤ maxSize then "Vector length limit exceeded"
        else "ReadCompactSize(): size too large") := by
  unfold readLimitedElements
  by_cases hmax : size ≤ maxSize
  · rw [if_pos hmax, (reads_readCompactSize hmax).run_bind]
    exact run_ensure_eq_error (Nat.not_le.mpr hlimit) _ _ rest
  · obtain ⟨chSize, tail, hwrite, htail⟩ := exists_writeCompactSize hsize
    have hread : readCompactSize.run (writeCompactSize size ++ rest) =
        .error "ReadCompactSize(): size too large" := by
      unfold readCompactSize
      rw [hwrite, append_assoc, (reads_readByte chSize).run_bind, htail.run_bind]
      exact run_ensure_eq_error hmax _ _ rest
    rw [StateT.run_bind, hread, if_neg hmax]
    rfl

end Kerrigan.Lib
