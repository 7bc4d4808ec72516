import Waybind.Xml.Error

/-!
This module contains what references stand for, and the text that an attribute value with references
in it denotes.
-/

namespace Waybind
namespace Xml
namespace Reference

def ofCode (code : Nat) : Except CharacterFault Char :=
  if code = 0 then
    .error .illegalCharacter
  else if code.isValidChar then
    .ok (Char.ofNat code)
  else
    .error (.invalidCodepoint code)

/--
The number of a character reference: digits without a sign that fit in 32 bits.
-/
def code (radix : Nat) (digits : List Char) : Except CharacterFault Nat :=
  match digits with
  | '+' :: _ => .error .unexpectedSign
  | '-' :: _ => .error .unexpectedSign
  | digits =>
    match Numeral.number radix Numeral.maxUInt32 .tooLarge digits with
    | .ok code => .ok code
    | .error fault => .error (.invalidNumber fault)

def character (cs : List Char) : Except CharacterFault Char := do
  match cs with
  | 'x' :: digits => ofCode (← code 16 digits)
  | digits => ofCode (← code 10 digits)

def predefined? (name : List Char) : Option Char :=
  match name with
  | ['l', 't'] => some '<'
  | ['g', 't'] => some '>'
  | ['a', 'm', 'p'] => some '&'
  | ['q', 'u', 'o', 't'] => some '"'
  | ['a', 'p', 'o', 's'] => some '\''
  | _ => none

def resolve (name : List Char) : Except ReferenceFault Char :=
  match name with
  | '#' :: cs => (character cs).mapError .character
  | name =>
    match predefined? name with
    | some c => .ok c
    | none => .error .unknown

def byteSize (cs : List Char) : Nat :=
  cs.foldr (fun c size => c.utf8Size + size) 0

/--
The text that a value with references denotes. `size` is the number of bytes of the whole value and
`pos` the number of bytes before `cs`. In `go` no reference is open, in `goOpen` the reference that
began at `start` is, with its characters so far in `name`, newest first.
-/
def expand (value : List Char) : Except ValueFault (List Char) :=
  go (byteSize value) 0 [] value
where
  go (size pos : Nat) (done cs : List Char) : Except ValueFault (List Char) :=
    match cs with
    | [] => .ok done.reverse
    | c :: cs =>
      if c = '&' then
        goOpen size pos [] (pos + 1) done cs
      else
        go size (pos + c.utf8Size) (c :: done) cs
  goOpen (size start : Nat) (name : List Char) (pos : Nat) (done cs : List Char) :
      Except ValueFault (List Char) :=
    match cs with
    | [] => .error (.unterminatedEntity start size)
    | c :: cs =>
      if c = ';' then
        match resolve name.reverse with
        | .ok c => go size (pos + 1) (c :: done) cs
        | .error .unknown =>
          .error (.unrecognizedEntity (start + 1) pos (String.ofList name.reverse))
        | .error (.character fault) => .error (.character fault)
      else if c = '&' then
        .error (.unterminatedEntity start size)
      else
        goOpen size start (c :: name) (pos + c.utf8Size) done cs

end Reference
end Xml
end Waybind
