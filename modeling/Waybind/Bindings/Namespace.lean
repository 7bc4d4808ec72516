import Waybind.Bindings.Interface

/-!
This module contains the bindings of namespaces: those of all interfaces of all protocols of a
family, and the imports that they need.
-/

namespace Waybind
namespace Bindings

structure Emission extends Lookup.State where
  text : String

/--
Computations that write bindings. The text is kept if they fail.
-/
abbrev EmitM : Type → Type :=
  ExceptT Error (StateM Emission)

def write (text : String) : EmitM Unit :=
  modify fun emission => { emission with text := emission.text ++ text }

def lookup {α : Type} (lookup : LookupM Error α) : EmitM α :=
  ExceptT.mk fun emission =>
    let (result, state) := lookup.run emission.toState
    (result, { emission with toState := state })

def supportImports : List (String × String) := [
  ("Proxy", "proxy.zig"),
  ("Interface", "proxy.zig"),
  ("Argument", "argument.zig"),
  ("Fixed", "argument.zig"),
  ("Client", "client.zig")]

def trimSlashes (directory : String) : String :=
  String.ofList (directory.toList.reverse.dropWhile (· == '/')).reverse

def supportImport (runtimeDir : String) (entry : String × String) : String :=
  let (name, file) := entry
  let path :=
    match trimSlashes runtimeDir with
    | "" => file
    | directory => directory ++ "/" ++ file
  "const " ++ name ++ " = @import(\"" ++ path ++ "\")." ++ name ++ ";\n"

def namespaceImport (family : String) : String :=
  "const " ++ family ++ " = @import(\"" ++ family ++ ".zig\");\n"

def imports (runtimeDir : String) (globals : List String) : String :=
  "\nconst std = @import(\"std\");\n"
    ++ String.join (supportImports.map (supportImport runtimeDir))
    ++ String.join (globals.map namespaceImport)

def protocolComment (protocol : Protocol) : String :=
  Zig.comment protocol.copyright "//"
    ++ Zig.comment (protocol.description.map (·.body)) "//"

/--
Write the bindings of an interface. All that can fail comes before the first text.
-/
def writeInterface (place : Place) : EmitM Unit := do
  let interface := place.interface
  let event ← lookup (eventUnion? place)
  let request ← lookup (requestUnion place)
  write (Zig.comment (interface.description.map (·.body)) "///")
  write ("pub const " ++ Zig.ident interface.handleName ++ " = enum(u32) \x7b\n")
  write "_,\n"
  write (metadata interface).render
  interface.enums.values.forM fun enum => write (enumText enum)
  event.forM fun union => write union.render
  write request.render
  write "\x7d;\n"

def writeProtocol (protocol : Protocol) : EmitM Unit := do
  lookup (Lookup.notice (.emitting protocol.name))
  write (protocolComment protocol)
  protocol.interfaces.values.forM fun interface => writeInterface ⟨protocol, interface⟩

def writeNamespace (runtimeDir family : String) : EmitM Unit := do
  let _ ← lookup (Lookup.openNamespace family)
  ((← get).registry.protocolsOf family).forM writeProtocol
  let globals ← lookup (Lookup.namespaceGlobals family)
  write (imports runtimeDir globals)

def emitNamespace (registry : Registry) (runtimeDir family : String) :
    Except Error Unit × Emission :=
  (writeNamespace runtimeDir family).run ⟨⟨registry, #[]⟩, ""⟩

end Bindings
end Waybind
