import Waybind.Protocol.Basic
import Waybind.Zig.Identifier

/-!
This module contains the names that interfaces and enumerations have in the bindings.
-/

namespace Waybind

def Interface.handleName (interface : Interface) : String :=
  Zig.camel interface.name

def Enumeration.typeName (enum : Enumeration) : String :=
  Zig.camel enum.name

end Waybind
