import Mathlib.Data.Int.Order.Basic

/-!
# Decimal amounts

`ParseFixedPoint` reads a decimal number with an optional fraction and exponent
as a fixed-point integer.  Trailing zeros of the mantissa are counted and only
multiplied in when another digit follows.
-/

namespace Kerrigan.Util

def upperBound : Int := 999999999999999999

/-- Mantissa read so far, with the number of zeros not yet multiplied in. -/
structure Mantissa where
  value : Int
  tzeros : Nat

/-- Multiply by ten `count` times, failing on overflow. -/
def scaleMantissa : Nat → Int → Option Int
  | 0, mantissa => some mantissa
  | count + 1, mantissa =>
      if upperBound / 10 < mantissa then none else scaleMantissa count (mantissa * 10)

def processMantissaDigit (ch : Char) (mantissa : Mantissa) : Option Mantissa :=
  if ch = '0' then some { mantissa with tzeros := mantissa.tzeros + 1 }
  else
    match scaleMantissa (mantissa.tzeros + 1) mantissa.value with
    | none => none
    | some scaled => some ⟨scaled + (ch.toNat - '0'.toNat : Nat), 0⟩

def mantissaDigits (mantissa : Mantissa) : List Char → Option (Mantissa × Nat × List Char)
  | [] => some (mantissa, 0, [])
  | ch :: rest =>
      if ch.isDigit then
        match processMantissaDigit ch mantissa with
        | none => none
        | some next =>
            (mantissaDigits next rest).map (fun result => (result.1, result.2.1 + 1, result.2.2))
      else some (mantissa, 0, ch :: rest)

def integerPart : List Char → Option (Mantissa × List Char)
  | [] => none
  | ch :: rest =>
      if ch = '0' then some (⟨0, 0⟩, rest)
      else if ch.isDigit then
        (mantissaDigits ⟨0, 0⟩ (ch :: rest)).map (fun result => (result.1, result.2.2))
      else none

def fractionPart (mantissa : Mantissa) : List Char → Option (Mantissa × Nat × List Char)
  | '.' :: ch :: rest => if ch.isDigit then mantissaDigits mantissa (ch :: rest) else none
  | ['.'] => none
  | rest => some (mantissa, 0, rest)

def exponentDigits (exponent : Int) : List Char → Option (Int × List Char)
  | [] => some (exponent, [])
  | ch :: rest =>
      if ch.isDigit then
        if upperBound / 10 < exponent then none
        else exponentDigits (exponent * 10 + (ch.toNat - '0'.toNat : Nat)) rest
      else some (exponent, ch :: rest)

def signedExponent (text : List Char) : Option (Int × List Char) :=
  let negative := text.head? = some '-'
  let digits := if text.head? = some '+' ∨ negative then text.tail else text
  if (digits.head?.map Char.isDigit).getD false then
    (exponentDigits 0 digits).map
      (fun result => (if negative then -result.1 else result.1, result.2))
  else none

def exponentPart : List Char → Option (Int × List Char)
  | [] => some (0, [])
  | ch :: rest =>
      if ch = 'e' ∨ ch = 'E' then signedExponent rest else some (0, ch :: rest)

def scaleSigned : Nat → Int → Option Int
  | 0, mantissa =>
      if upperBound < mantissa ∨ mantissa < -upperBound then none else some mantissa
  | count + 1, mantissa =>
      if upperBound / 10 < mantissa ∨ mantissa < -(upperBound / 10) then none
      else scaleSigned count (mantissa * 10)

def parseFixedPoint (val : String) (decimals : Int) : Option Int := do
  let text := val.toList
  let negative := text.head? = some '-'
  let (mantissa, afterInteger) ← integerPart (if negative then text.tail else text)
  let (mantissa, pointOfs, afterFraction) ← fractionPart mantissa afterInteger
  let (exponent, rest) ← exponentPart afterFraction
  if rest ≠ [] then none
  else
    let exponent := exponent - pointOfs + mantissa.tzeros + decimals
    if exponent < 0 ∨ 18 ≤ exponent then none
    else scaleSigned exponent.toNat (if negative then -mantissa.value else mantissa.value)

example : parseFixedPoint "12.50" 8 = some 1250000000 := by decide

end Kerrigan.Util
