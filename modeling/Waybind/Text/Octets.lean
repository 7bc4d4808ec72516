import Waybind.Text.Utf8

/-!
This module contains texts of bytes: texts in which every character stands for one byte. Programs
that know of no encoding work on them. Such a text is decoded only where it is shown, or where it
names a file.
-/

namespace Waybind
namespace Octets

def ofBytes (bytes : List UInt8) : String :=
  String.ofList (bytes.map fun b => Char.ofNat b.toNat)

def toBytes (text : String) : List UInt8 :=
  text.toList.map fun c => UInt8.ofNat c.toNat

def ofText (text : String) : String :=
  ofBytes (Utf8.encode text)

def toText (text : String) : String :=
  Utf8.decodeLossy (toBytes text)

end Octets
end Waybind
