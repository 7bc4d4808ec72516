import Waybind.Rehearsal.Shell.Number

/-!
This module contains floating-point numbers of 64 bits: how they are read from a text, and their
exact digits. All of it is done with natural numbers, so that nothing depends on a machine.
-/

namespace Waybind
namespace Rehearsal
namespace Shell

inductive Binary64 where
  | finite (negative : Bool) (mantissa : Nat) (exponent : Int)
  | infinite (negative : Bool)
  | nan (negative : Bool)
deriving Repr, DecidableEq

namespace Binary64

/--
The quotient of two numbers, rounded to the nearest. A half goes to the even neighbour.
-/
def roundDiv (num den : Nat) : Nat :=
  let quotient := num / den
  let rest := num % den
  if den < 2 * rest || (den == 2 * rest && quotient % 2 == 1) then quotient + 1 else quotient

def scale (num den : Nat) (exponent : Int) : Nat × Nat :=
  if 0 ≤ exponent then
    (num * Nat.pow 2 exponent.toNat, den)
  else
    (num, den * Nat.pow 2 (-exponent).toNat)

def minExponent : Int :=
  -1074

def maxExponent : Int :=
  971

def ofFraction (negative : Bool) (num den : Nat) : Binary64 × Bool :=
  if num == 0 || den == 0 then
    (.finite negative 0 0, false)
  else
    let estimate : Int := (Nat.log2 num : Int) - Nat.log2 den - 52
    let (a, b) := scale num den (-estimate)
    let exponent := if a < b * 0x10000000000000 then estimate - 1 else estimate
    let exponent := max exponent minExponent
    let (a, b) := scale num den (-exponent)
    let mantissa := roundDiv a b
    let (mantissa, exponent) :=
      if mantissa == 0x20000000000000 then (0x10000000000000, exponent + 1)
      else (mantissa, exponent)
    if maxExponent < exponent then
      (.infinite negative, true)
    else
      (.finite negative mantissa exponent, mantissa < 0x10000000000000 && a % b != 0)

structure Reading where
  value : Binary64
  exceeds : Bool
  rest : List Char

def beginsWith (word : String) (cs : List Char) : Bool :=
  (cs.take word.length).map Char.toLower == word.toList

def pointDigits? (base : Nat) (cs : List Char) : Option (Nat × Nat × List Char) :=
  let isDigit (c : Char) := (Numeral.digit? base c).isSome
  let front := cs.takeWhile isDigit
  let rest := cs.drop front.length
  let (behind, rest) :=
    match rest with
    | '.' :: after =>
      let behind := after.takeWhile isDigit
      if front.isEmpty && behind.isEmpty then ([], rest) else (behind, after.drop behind.length)
    | rest => ([], rest)
  if front.isEmpty && behind.isEmpty then
    none
  else
    some ((Number.digits base 0 (front ++ behind)).1, behind.length, rest)

def exponentPart (letter : Char) (cs : List Char) : Int × List Char :=
  match cs with
  | c :: rest =>
    if c.toLower == letter then
      let (negative, digits) :=
        match rest with
        | '-' :: rest => (true, rest)
        | '+' :: rest => (false, rest)
        | rest => (false, rest)
      match digits with
      | d :: _ =>
        if d.isDigit then
          let (value, rest) := Number.digits 10 0 digits
          (if negative then -(value : Int) else value, rest)
        else
          (0, cs)
      | [] => (0, cs)
    else
      (0, cs)
  | [] => (0, [])

def farAway (digits : Nat) : Nat :=
  20000 + 8 * digits

def ofDigits (negative : Bool) (base digits : Nat) (length : Nat) (exponent : Int) :
    Binary64 × Bool :=
  let limit := farAway length
  let exponent := max (min exponent limit) (-(limit : Int))
  let power := Nat.pow base exponent.natAbs
  if 0 ≤ exponent then ofFraction negative (digits * power) 1
  else ofFraction negative digits power

def readUnsigned? (negative : Bool) (cs : List Char) : Option Reading :=
  let hexadecimal? :=
    match cs with
    | '0' :: x :: rest => if x == 'x' || x == 'X' then pointDigits? 16 rest else none
    | _ => none
  if beginsWith "infinity" cs then
    some ⟨.infinite negative, false, cs.drop 8⟩
  else if beginsWith "inf" cs then
    some ⟨.infinite negative, false, cs.drop 3⟩
  else if beginsWith "nan" cs then
    let rest := cs.drop 3
    let inner := (rest.drop 1).takeWhile fun c => c.isAlphanum || c == '_'
    let after := rest.drop (inner.length + 1)
    if rest.head? == some '(' && after.head? == some ')' then
      some ⟨.nan negative, false, after.drop 1⟩
    else
      some ⟨.nan negative, false, rest⟩
  else
    match hexadecimal? with
    | some (digits, behind, rest) =>
      let (exponent, rest) := exponentPart 'p' rest
      let (value, exceeds) :=
        ofDigits negative 2 digits (4 * cs.length) (exponent - 4 * behind)
      some ⟨value, exceeds, rest⟩
    | none =>
      match pointDigits? 10 cs with
      | some (digits, behind, rest) =>
        let (exponent, rest) := exponentPart 'e' rest
        let (value, exceeds) := ofDigits negative 10 digits cs.length (exponent - behind)
        some ⟨value, exceeds, rest⟩
      | none => none

def read (cs : List Char) : Reading :=
  let trimmed := cs.dropWhile Number.isSpace
  let (negative, digits) :=
    match trimmed with
    | '-' :: rest => (true, rest)
    | '+' :: rest => (false, rest)
    | rest => (false, rest)
  (readUnsigned? negative digits).getD ⟨.finite false 0 0, false, cs⟩

def withPoint (digits : List Char) (places : Nat) (point : Bool) : List Char :=
  let digits := List.replicate (places + 1 - digits.length) '0' ++ digits
  let front := digits.take (digits.length - places)
  let behind := digits.drop (digits.length - places)
  if behind.isEmpty && !point then front else front ++ '.' :: behind

def withoutZeros (cs : List Char) : List Char :=
  if cs.contains '.' then
    let rest := cs.reverse.dropWhile (· == '0')
    (if rest.head? == some '.' then rest.drop 1 else rest).reverse
  else
    cs

def fixed (mantissa : Nat) (exponent : Int) (places : Nat) (point : Bool) : List Char :=
  let (num, den) := scale (mantissa * Nat.pow 10 places) 1 exponent
  withPoint (Nat.toDigits 10 (roundDiv num den)) places point

def decimalExponent (mantissa : Nat) (exponent : Int) : Int :=
  let (num, den) := scale (mantissa * Nat.pow 10 400) 1 exponent
  ((Nat.toDigits 10 (num / den)).length : Int) - 401

def scientificDigits (mantissa : Nat) (exponent : Int) (places : Nat) : Nat × Int :=
  if mantissa == 0 then
    (0, 0)
  else
    let power := decimalExponent mantissa exponent
    let shift : Int := places - power
    let (num, den) := scale mantissa 1 exponent
    let digits :=
      if 0 ≤ shift then roundDiv (num * Nat.pow 10 shift.toNat) den
      else roundDiv num (den * Nat.pow 10 (-shift).toNat)
    if digits == Nat.pow 10 (places + 1) then (digits / 10, power + 1) else (digits, power)

def exponentText (letter : Char) (least : Nat) (exponent : Int) : List Char :=
  let digits := Nat.toDigits 10 exponent.natAbs
  letter :: (if exponent < 0 then '-' else '+') ::
    (List.replicate (least - digits.length) '0' ++ digits)

def scientific (mantissa : Nat) (exponent : Int) (places : Nat) (point : Bool) : List Char :=
  let (digits, power) := scientificDigits mantissa exponent places
  withPoint (Nat.toDigits 10 digits) places point ++ exponentText 'e' 2 power

def general (mantissa : Nat) (exponent : Int) (digits : Nat) (keepZeros : Bool) : List Char :=
  let digits := max digits 1
  let (_, power) := scientificDigits mantissa exponent (digits - 1)
  let finish (cs : List Char) := if keepZeros then cs else withoutZeros cs
  if -4 ≤ power && power < digits then
    finish (fixed mantissa exponent (digits - 1 - power).toNat keepZeros)
  else
    let (rounded, power) := scientificDigits mantissa exponent (digits - 1)
    finish (withPoint (Nat.toDigits 10 rounded) (digits - 1) keepZeros)
      ++ exponentText 'e' 2 power

def hexadecimal (mantissa : Nat) (exponent : Int) (places : Option Nat) (point : Bool) :
    List Char :=
  let (mantissa, power) : Nat × Int :=
    if mantissa == 0 then
      (0, 0)
    else
      let missing := 52 - Nat.log2 mantissa
      let shift := min missing (exponent - minExponent).toNat
      (mantissa * Nat.pow 2 shift, exponent - shift + 52)
  match places with
  | none =>
    let digits := Nat.toDigits 16 mantissa
    let text := withPoint digits 13 point
    (if point then (withoutZeros text) ++ (if (withoutZeros text).contains '.' then [] else ['.'])
      else withoutZeros text) ++ exponentText 'p' 1 power
  | some places =>
    let digits :=
      if places < 13 then roundDiv mantissa (Nat.pow 16 (13 - places))
      else mantissa * Nat.pow 16 (places - 13)
    withPoint (Nat.toDigits 16 digits) places point ++ exponentText 'p' 1 power

end Binary64
end Shell
end Rehearsal
end Waybind
