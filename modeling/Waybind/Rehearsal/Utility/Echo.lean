import Waybind.Rehearsal.Utility.Basic
import Waybind.Text.Numeral

/-!
This module contains the utility that writes its arguments, and the escape sequences in them.
-/

namespace Waybind
namespace Rehearsal
namespace Escape

def takeNumber (base count : Nat) (number : Nat) (cs : List Char) : Nat × List Char :=
  match count, cs with
  | count + 1, c :: rest =>
    match Numeral.digit? base c with
    | some digit => takeNumber base count (number * base + digit) rest
    | none => (number, cs)
  | _, cs => (number, cs)

theorem length_takeNumber_le (base count number : Nat) (cs : List Char) :
    (takeNumber base count number cs).2.length ≤ cs.length := by
  induction count generalizing number cs with
  | zero => simp [takeNumber]
  | succ count ih =>
    cases cs with
    | nil => simp [takeNumber]
    | cons c rest =>
      simp only [takeNumber]
      split
      · next digit _ =>
        have := ih (number * base + digit) rest
        simp only [List.length_cons]
        omega
      · exact Nat.le_refl _

def control? (c : Char) : Option UInt8 :=
  match c with
  | 'a' => some 0x07
  | 'b' => some 0x08
  | 'e' => some 0x1B
  | 'f' => some 0x0C
  | 'n' => some 0x0A
  | 'r' => some 0x0D
  | 't' => some 0x09
  | 'v' => some 0x0B
  | '\\' => some 0x5C
  | _ => none

structure Style where
  hexadecimal : Bool := false
  longOctal : Bool := true

def byte? (style : Style) (cs : List Char) : Option (UInt8 × List Char) :=
  match cs with
  | [] => none
  | c :: rest =>
    if c == 'x' then
      match rest with
      | d :: _ =>
        if style.hexadecimal && (Numeral.digit? 16 d).isSome then
          let (number, rest) := takeNumber 16 2 0 rest
          some (UInt8.ofNat number, rest)
        else
          none
      | [] => none
    else if c == '0' && style.longOctal then
      let (number, rest) := takeNumber 8 3 0 rest
      some (UInt8.ofNat number, rest)
    else if (Numeral.digit? 8 c).isSome then
      let (number, rest) := takeNumber 8 3 0 cs
      some (UInt8.ofNat number, rest)
    else
      (control? c).map (·, rest)

theorem length_of_byte? {style : Style} {cs rest : List Char} {b : UInt8}
    (h : byte? style cs = some (b, rest)) : rest.length ≤ cs.length := by
  unfold byte? at h
  split at h
  · cases h
  · next c tail =>
    simp only [List.length_cons]
    split at h
    · split at h
      · next d tail' =>
        split at h
        · simp only [Option.some.injEq, Prod.mk.injEq] at h
          obtain ⟨_, rfl⟩ := h
          exact Nat.le_succ_of_le (length_takeNumber_le ..)
        · cases h
      · cases h
    · split at h
      · simp only [Option.some.injEq, Prod.mk.injEq] at h
        obtain ⟨_, rfl⟩ := h
        exact Nat.le_succ_of_le (length_takeNumber_le ..)
      · split at h
        · simp only [Option.some.injEq, Prod.mk.injEq] at h
          obtain ⟨_, rfl⟩ := h
          exact length_takeNumber_le 8 3 0 (c :: tail)
        · obtain ⟨_, _, heq⟩ := Option.map_eq_some_iff.1 h
          cases heq
          omega

def interpret (style : Style) (done : List UInt8) (cs : List Char) : List UInt8 × Bool :=
  match cs with
  | [] => (done.reverse, false)
  | c :: rest =>
    if c == '\\' then
      if rest.head? == some 'c' then
        (done.reverse, true)
      else
        match h : byte? style rest with
        | some (b, after) =>
          have := length_of_byte? h
          interpret style (b :: done) after
        | none => interpret style (0x5C :: done) rest
    else
      interpret style (UInt8.ofNat c.toNat :: done) rest
termination_by cs.length

end Escape

namespace Utility

def echo (args : List String) : UtilityM Unit := do
  let isOption (arg : String) :=
    match arg.toList with
    | '-' :: c :: cs => (c :: cs).all ['n', 'e', 'E'].contains
    | _ => false
  let letters := (args.takeWhile isOption).flatMap String.toList
  let text := " ".intercalate (args.dropWhile isOption)
  let escapes := (letters.reverse.find? ['e', 'E'].contains) == some 'e'
  let (bytes, ended) :=
    if escapes then Escape.interpret { hexadecimal := true } [] text.toList
    else (Octets.toBytes text, false)
  let lineEnd := if ended || letters.contains 'n' then [] else [0x0A]
  UtilityM.print (Octets.ofBytes (bytes ++ lineEnd))

end Utility
end Rehearsal
end Waybind
