import Waybind.Text.Octets

/-!
This module contains how utilities write names in their messages: in quotes, so that a shell would
read the name back.
-/

namespace Waybind
namespace Rehearsal
namespace Quoting

def isPrintable (b : UInt8) : Bool :=
  0x20 ≤ b && b ≤ 0x7E

def isSpecial (c : Char) : Bool :=
  " !\"$&()*;<=>?[^`|'\\".toList.contains c

def isHarmless (c : Char) : Bool :=
  c.isAlphanum || " '%+,-./:]_@".toList.contains c

def escapeByte (b : UInt8) : String :=
  match b.toNat with
  | 7 => "\\a"
  | 8 => "\\b"
  | 9 => "\\t"
  | 10 => "\\n"
  | 11 => "\\v"
  | 12 => "\\f"
  | 13 => "\\r"
  | n => String.ofList ('\\' :: ([n / 64, n / 8 % 8, n % 8].map fun digit => Nat.digitChar digit))

def inside (escaping : Bool) (bytes : List UInt8) : String :=
  match bytes with
  | [] => ""
  | b :: bytes =>
    if b == 0x27 then
      "'\\''" ++ inside false bytes
    else if isPrintable b then
      (if escaping then "''" else "") ++ String.singleton (Char.ofNat b.toNat) ++ inside false bytes
    else
      (if escaping then "" else "'$'") ++ escapeByte b ++ inside true bytes

/--
A name in quotes. One that has a quote in it is gone through twice, and the second time begins in
the state that the first one ended in.
-/
def quote (name : String) : String :=
  let bytes := Octets.toBytes name
  if bytes.contains 0x27 && name.toList.all isHarmless then
    "\"" ++ name ++ "\""
  else
    let escaping := bytes.contains 0x27 && (bytes.getLast?.map isPrintable) == some false
    "'" ++ inside escaping bytes ++ "'"

def quoteIfNeeded (name : String) : String :=
  let startsSpecially := ['#', '~'].contains (name.toList.headD '#')
  if startsSpecially || name == "\x7b" || name == "\x7d"
      || name.toList.any (fun c => isSpecial c || c == ':')
      || !(Octets.toBytes name).all isPrintable then
    quote name
  else
    name

end Quoting
end Rehearsal
end Waybind
