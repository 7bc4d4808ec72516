import Waybind.Text.Blank

/-!
This module contains the reading of integers from texts: numerals of a given radix within a limit,
signed and unsigned decimal numerals of a word size, and integer literals with a radix marker.
-/

namespace Waybind
namespace Numeral

inductive Fault where
  | empty
  | invalidDigit
  | tooLarge
  | tooSmall
deriving Repr, DecidableEq

def Fault.message : Fault → String
  | .empty => "cannot parse integer from empty string"
  | .invalidDigit => "invalid digit found in string"
  | .tooLarge => "number too large to fit in target type"
  | .tooSmall => "number too small to fit in target type"

def digit? (radix : Nat) (c : Char) : Option Nat :=
  let value? :=
    if '0' ≤ c && c ≤ '9' then some (c.toNat - '0'.toNat)
    else if 'a' ≤ c && c ≤ 'z' then some (c.toNat - 'a'.toNat + 10)
    else if 'A' ≤ c && c ≤ 'Z' then some (c.toNat - 'A'.toNat + 10)
    else none
  value?.filter (· < radix)

/--
Continue a number with digits, from left to right. The first character that is no digit or exceeds
the limit decides the fault.
-/
def continueNumber (radix limit : Nat) (overflow : Fault) (cs : List Char) (value : Nat) :
    Except Fault Nat :=
  match cs with
  | [] => .ok value
  | c :: cs =>
    match digit? radix c with
    | none => .error .invalidDigit
    | some d =>
      if value * radix + d ≤ limit then
        continueNumber radix limit overflow cs (value * radix + d)
      else
        .error overflow

def number (radix limit : Nat) (overflow : Fault) (cs : List Char) : Except Fault Nat :=
  match cs with
  | [] => .error .empty
  | cs => continueNumber radix limit overflow cs 0

def afterSign (limit : Nat) (overflow : Fault) (cs : List Char) : Except Fault Nat :=
  match cs with
  | [] => .error .invalidDigit
  | cs => number 10 limit overflow cs

def maxUInt32 : Nat :=
  0xFFFFFFFF

@[noinline]
def maxInt64 : Nat :=
  0x7FFFFFFFFFFFFFFF

def unsigned (limit : Nat) (s : String) : Except Fault Nat :=
  match s.toList with
  | '+' :: cs => afterSign limit .tooLarge cs
  | cs => number 10 limit .tooLarge cs

def signed (limit : Nat) (s : String) : Except Fault Int :=
  match s.toList with
  | '+' :: cs => Int.ofNat <$> afterSign limit .tooLarge cs
  | '-' :: cs => (fun n => -(Int.ofNat n)) <$> afterSign (limit + 1) .tooSmall cs
  | cs => Int.ofNat <$> number 10 limit .tooLarge cs

def radix (cs : List Char) : Nat × List Char :=
  match cs with
  | '0' :: 'x' :: cs => (16, cs)
  | '0' :: 'X' :: cs => (16, cs)
  | '0' :: 'o' :: cs => (8, cs)
  | '0' :: 'O' :: cs => (8, cs)
  | '0' :: 'b' :: cs => (2, cs)
  | '0' :: 'B' :: cs => (2, cs)
  | cs => (10, cs)

def magnitude? (cs : List Char) : Option Nat :=
  let (radix, digits) := radix cs
  (number radix maxInt64 .tooLarge digits).toOption

def literal? (s : String) : Option Int :=
  match Text.trim s.toList with
  | '-' :: cs => (magnitude? cs).map fun n => -(Int.ofNat n)
  | '+' :: cs => (magnitude? cs).map Int.ofNat
  | cs => (magnitude? cs).map Int.ofNat

end Numeral
end Waybind
