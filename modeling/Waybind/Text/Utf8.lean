/-!
This module contains UTF-8 on lists of bytes. Decoding walks over the bytes once and yields items:
the characters, and the faults with their place and extent. Strict decoding stops at the first
fault, lossy decoding puts a replacement character in the place of each.
-/

namespace Waybind
namespace Utf8

/--
A place where bytes are not UTF-8. `length` is the number of bytes from `start` on that could have
begun a character, or `none` if the bytes end inside of a character that is valid so far.
-/
structure Fault where
  start : Nat
  length : Option Nat
deriving Repr, DecidableEq

def Fault.message (fault : Fault) : String :=
  match fault.length with
  | some length => s!"invalid utf-8 sequence of {length} bytes from index {fault.start}"
  | none => s!"incomplete utf-8 byte sequence from index {fault.start}"

inductive Item where
  | scalar (c : Char)
  | fault (fault : Fault)
deriving Repr, DecidableEq

/--
A character that has begun: where, how many of its bytes were seen, how many are missing, its code
point as far as known, and the range that the next byte has to be in.
-/
structure Pending where
  start : Nat
  seen : Nat
  missing : Nat
  code : Nat
  low : UInt8
  high : UInt8
deriving Repr, DecidableEq

inductive Lead where
  | whole (c : Char)
  | more (pending : Pending)
  | never
deriving Repr, DecidableEq

/--
Classify the first byte of a character at position `pos`. The ranges for the second byte exclude
overlong forms, surrogates and code points above U+10FFFF.
-/
def lead (pos : Nat) (b : UInt8) : Lead :=
  if b < 0x80 then .whole (Char.ofNat b.toNat)
  else if b < 0xC2 then .never
  else if b < 0xE0 then .more ⟨pos, 1, 1, b.toNat - 0xC0, 0x80, 0xBF⟩
  else if b == 0xE0 then .more ⟨pos, 1, 2, 0, 0xA0, 0xBF⟩
  else if b == 0xED then .more ⟨pos, 1, 2, 0xD, 0x80, 0x9F⟩
  else if b < 0xF0 then .more ⟨pos, 1, 2, b.toNat - 0xE0, 0x80, 0xBF⟩
  else if b == 0xF0 then .more ⟨pos, 1, 3, 0, 0x90, 0xBF⟩
  else if b == 0xF4 then .more ⟨pos, 1, 3, 4, 0x80, 0x8F⟩
  else if b < 0xF4 then .more ⟨pos, 1, 3, b.toNat - 0xF0, 0x80, 0xBF⟩
  else .never

/--
The state of decoding between two bytes: the items so far, newest first, and the begun character.
-/
structure State where
  items : List Item
  pending : Option Pending

def startAt (items : List Item) (pos : Nat) (b : UInt8) : State :=
  match lead pos b with
  | .whole c => ⟨.scalar c :: items, none⟩
  | .more pending => ⟨items, some pending⟩
  | .never => ⟨.fault ⟨pos, some 1⟩ :: items, none⟩

/--
Take one byte. A byte that cannot continue the begun character ends it with a fault and is looked
at again as the beginning of the next one.
-/
def step (state : State) (pos : Nat) (b : UInt8) : State :=
  match state.pending with
  | none => startAt state.items pos b
  | some p =>
    if p.low ≤ b && b ≤ p.high then
      let code := p.code * 64 + (b.toNat - 0x80)
      if p.missing ≤ 1 then
        ⟨.scalar (Char.ofNat code) :: state.items, none⟩
      else
        ⟨state.items, some ⟨p.start, p.seen + 1, p.missing - 1, code, 0x80, 0xBF⟩⟩
    else
      startAt (.fault ⟨p.start, some p.seen⟩ :: state.items) pos b

def items (bytes : List UInt8) : List Item :=
  go bytes 0 ⟨[], none⟩
where
  go (bytes : List UInt8) (pos : Nat) (state : State) : List Item :=
    match bytes with
    | [] =>
      match state.pending with
      | none => state.items.reverse
      | some p => (.fault ⟨p.start, none⟩ :: state.items).reverse
    | b :: bytes => go bytes (pos + 1) (step state pos b)

def decodeChars (bytes : List UInt8) : Except Fault (List Char) :=
  go (items bytes) []
where
  go (items : List Item) (chars : List Char) : Except Fault (List Char) :=
    match items with
    | [] => .ok chars.reverse
    | .scalar c :: items => go items (c :: chars)
    | .fault fault :: _ => .error fault

def decode (bytes : List UInt8) : Except Fault String :=
  String.ofList <$> decodeChars bytes

def decodeLossy (bytes : List UInt8) : String :=
  String.ofList <| (items bytes).map fun
    | .scalar c => c
    | .fault _ => '�'

def encode (s : String) : List UInt8 :=
  s.toList.flatMap String.utf8EncodeChar

end Utf8
end Waybind
