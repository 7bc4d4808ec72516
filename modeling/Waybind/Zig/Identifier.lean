import Waybind.Text.Utf8

/-!
This module contains how names are spelled in Zig: identifiers, quoted where the bare name would not
be accepted, and the camel case form that types are named in.
-/

namespace Waybind
namespace Zig

def keywords : List String := [
  "addrspace", "align", "allowzero", "and", "anyframe", "anytype", "asm", "break", "callconv",
  "catch", "comptime", "const", "continue", "defer", "else", "enum", "errdefer", "error", "export",
  "extern", "fn", "for", "if", "inline", "linksection", "noalias", "noinline", "nosuspend",
  "opaque", "or", "orelse", "packed", "pub", "resume", "return", "struct", "suspend", "switch",
  "test", "threadlocal", "try", "union", "unreachable", "var", "volatile", "while"]

def primitives : List String := [
  "anyerror", "anyopaque", "bool", "c_char", "c_int", "c_long", "c_longdouble", "c_longlong",
  "c_short", "c_uint", "c_ulong", "c_ulonglong", "c_ushort", "comptime_float", "comptime_int",
  "f16", "f32", "f64", "f80", "f128", "false", "isize", "noreturn", "null", "true", "type",
  "undefined", "usize", "void"]

def isDigit (c : Char) : Bool :=
  '0' ≤ c && c ≤ '9'

def isNameStart (c : Char) : Bool :=
  ('a' ≤ c && c ≤ 'z') || ('A' ≤ c && c ≤ 'Z') || c == '_'

def isNameChar (c : Char) : Bool :=
  isNameStart c || isDigit c

def isIntegerType (cs : List Char) : Bool :=
  match cs with
  | c :: bits => (c == 'i' || c == 'u') && !bits.isEmpty && bits.all isDigit
  | [] => false

def isPlain (cs : List Char) : Bool :=
  match cs with
  | c :: _ => isNameStart c && cs.all isNameChar
  | [] => false

def isReserved (name : String) : Bool :=
  name == "_" || keywords.contains name || primitives.contains name || isIntegerType name.toList

def escapeChar (c : Char) : List Char :=
  if c == '\t' then ['\\', 't']
  else if c == '\r' then ['\\', 'r']
  else if c == '\n' then ['\\', 'n']
  else if c == '\'' || c == '"' || c == '\\' then ['\\', c]
  else if ' ' ≤ c && c ≤ '~' then [c]
  else ['\\', 'u', '\x7b'] ++ Nat.toDigits 16 c.toNat ++ ['\x7d']

def escape (s : String) : String :=
  String.ofList (s.toList.flatMap escapeChar)

/--
A name as an identifier, in the `@"..."` form where the bare name would not be accepted.
-/
def ident (name : String) : String :=
  if isPlain name.toList && !isReserved name then
    name
  else
    "@\"" ++ escape name ++ "\""

def upperAscii (b : UInt8) : UInt8 :=
  if 0x61 ≤ b && b ≤ 0x7A then b - 0x20 else b

/--
Drop the underscores and raise the letters that follow one, or that come first.
-/
def camelBytes (raise : Bool) (bytes : List UInt8) : List UInt8 :=
  match bytes with
  | [] => []
  | b :: bytes =>
    if b == 0x5F then
      camelBytes true bytes
    else
      (if raise then upperAscii b else b) :: camelBytes false bytes

/--
A name in camel case. The bytes of the name are taken one by one, and each becomes the character
with its number, so that only ASCII names keep their characters.
-/
def camel (name : String) : String :=
  String.ofList ((camelBytes true (Utf8.encode name)).map fun b => Char.ofNat b.toNat)

end Zig
end Waybind
