import Waybind.Text.Numeral

/-!
This module contains numbers at the beginning of a text, which most commands of a shell read from
their arguments. What follows a number is left to be judged by the command.
-/

namespace Waybind
namespace Rehearsal
namespace Shell

structure Number where
  value : Int
  exceeds : Bool
  rest : List Char
deriving Repr

namespace Number

def isSpace (c : Char) : Bool :=
  [' ', '\t', '\n', '\x0b', '\x0c', '\r'].contains c

@[noinline]
def maxUInt64 : Nat :=
  0xFFFFFFFFFFFFFFFF

def digits (base value : Nat) (cs : List Char) : Nat × List Char :=
  match cs with
  | [] => (value, [])
  | c :: rest =>
    match Numeral.digit? base c with
    | some digit => digits base (value * base + digit) rest
    | none => (value, cs)

def baseOf (cs : List Char) : Nat × List Char :=
  match cs with
  | '0' :: x :: d :: rest =>
    if (x == 'x' || x == 'X') && (Numeral.digit? 16 d).isSome then (16, d :: rest) else (8, cs)
  | '0' :: _ => (8, cs)
  | cs => (10, cs)

def magnitude? (marked : Bool) (cs : List Char) : Option (Bool × Nat × List Char) :=
  let cs := cs.dropWhile isSpace
  let (negative, cs) :=
    match cs with
    | '-' :: cs => (true, cs)
    | '+' :: cs => (false, cs)
    | cs => (false, cs)
  let (base, cs) := if marked then baseOf cs else (10, cs)
  match cs with
  | [] => none
  | c :: _ =>
    match Numeral.digit? base c with
    | some _ => some (negative, digits base 0 cs)
    | none => none

def signed (marked : Bool) (cs : List Char) : Number :=
  match magnitude? marked cs with
  | none => ⟨0, false, cs⟩
  | some (negative, magnitude, rest) =>
    let limit := if negative then Numeral.maxInt64 + 1 else Numeral.maxInt64
    let clamped : Nat := min magnitude limit
    ⟨if negative then -(clamped : Int) else clamped, decide (limit < magnitude), rest⟩

def unsigned (marked : Bool) (cs : List Char) : Number :=
  match magnitude? marked cs with
  | none => ⟨0, false, cs⟩
  | some (negative, magnitude, rest) =>
    if maxUInt64 < magnitude then
      ⟨maxUInt64, true, rest⟩
    else
      let value : Int := if negative then -magnitude else magnitude
      ⟨value % (maxUInt64 + 1), false, rest⟩

def whole? (marked : Bool) (text : String) : Option Int :=
  let number := signed marked text.toList
  let nothing := !marked && number.rest.length == text.length
  if number.exceeds || nothing || !number.rest.all isSpace then
    none
  else
    some number.value

def maxCount : Int :=
  0x7FFFFFFF

def count? (text : String) : Option Nat :=
  match whole? false text with
  | some value => if 0 ≤ value && value ≤ maxCount then some value.toNat else none
  | none => none

end Number
end Shell
end Rehearsal
end Waybind
