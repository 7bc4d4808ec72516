import Waybind.Bindings.Name
import Waybind.Zig.Node

/-!
This module contains the bindings of enumerations: packed structs for bitfields, and enums for all
others.
-/

namespace Waybind
namespace Bindings

open Zig (Node Field)

def flagField (entry : Entry) : Field where
  name := entry.name
  type := "bool"
  default := some "false"
  comment := entry.summary.or (entry.description.map (·.body))

def paddingField (flags : Nat) : Field where
  name := "_padding"
  type := s!"u{32 - flags}"
  default := some "0"
  comment := none

def bitfieldFields (enum : Enumeration) : List Field :=
  let flags := enum.flags.map fun (_, entry) => flagField entry
  if flags.length < 32 then flags ++ [paddingField flags.length] else flags

def bitfield (enum : Enumeration) : Node :=
  .assignment enum.typeName (.struct (some "u32") (bitfieldFields enum))

def enumBacking (enum : Enumeration) : String :=
  if enum.isSigned then "c_int" else "u32"

def enumerant (entry : Entry) : String :=
  let doc :=
    match entry.description with
    | some description => some description.body
    | none => entry.summary
  Zig.comment doc "///" ++ Zig.ident entry.name ++ " = " ++ toString entry.value ++ ","

def enumText (enum : Enumeration) : String :=
  let comment := Zig.comment (enum.description.map (·.body)) "///"
  if enum.bitfield then
    comment ++ (bitfield enum).render
  else
    comment ++ "pub const " ++ Zig.ident enum.typeName ++ " = enum(" ++ enumBacking enum ++ ") \x7b"
      ++ String.join (enum.entries.values.map enumerant) ++ "\x7d;\n"

end Bindings
end Waybind
