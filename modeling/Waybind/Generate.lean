import Waybind.Bindings.Namespace
import Waybind.Config.Basic
import Waybind.Xml.Document

/-!
This module contains the generation of bindings: all documents are read first, and then one file is
written for each namespace.
-/

namespace Waybind
namespace Generate

inductive Error where
  | noProtocols
  | read (path : Path) (cause : HostError)
  | parse (path : Path) (cause : Xml.Error)
  | build (path : Path) (cause : Protocol.Error)
  | createDirectory (path : Path) (cause : HostError)
  | emit (family : String) (cause : Bindings.Error)
  | write (path : Path) (cause : HostError)
deriving Repr, DecidableEq

def Error.messages : Error → List String
  | .noProtocols => ["No protocol documents were given"]
  | .read path cause => ["Could not read " ++ path.text, cause.message]
  | .parse path cause => ("Could not parse " ++ path.text) :: cause.messages
  | .build path cause => ("Could not process " ++ path.text) :: cause.messages
  | .createDirectory path cause =>
    ["Could not create the output directory " ++ path.text, cause.message]
  | .emit family cause =>
    ("Could not generate the bindings of namespace " ++ family) :: cause.messages
  | .write path cause => ["Could not write " ++ path.text, cause.message]

variable {m : Type → Type} [Monad m] [Host m]

def loadDocument (registry : Registry) (path : Path) : ExceptT Error m Registry := do
  Host.notify (m := m) (.reading path)
  match ← Host.readFile (m := m) path with
  | .error cause => throw (.read path cause)
  | .ok bytes =>
    match Xml.parse bytes with
    | .error cause => throw (.parse path cause)
    | .ok root =>
      match registry.add root with
      | .error cause => throw (.build path cause)
      | .ok (protocol, registry) =>
        Host.notify (m := m) (.registered protocol.name protocol.family)
        return registry

def load (paths : List Path) : ExceptT Error m Registry := do
  let registry ← paths.foldlM loadDocument Registry.empty
  Host.notify (m := m) (.loaded registry.members.length registry.families.length)
  return registry

/--
Run the formatter on a file. A failure leaves the file as it is.
-/
def formatFile (formatter : List String) (path : Path) : m Unit :=
  match formatter with
  | [] => return
  | program :: args => do
    match ← Host.runProgram program (args ++ [path.text]) with
    | .error cause => Host.notify (.formatterMissing program cause.message)
    | .ok status =>
      if status.isSuccess then
        Host.notify (.formatted path)
      else
        Host.notify (.formatterFailed program status.render path)

def filePath (outputDir : Path) (family : String) : Path :=
  outputDir.join ⟨family ++ ".zig"⟩

def writeFile (config : Config) (registry : Registry) (family : String) :
    ExceptT Error m (Registry × Path) := do
  let (result, emission) := Bindings.emitNamespace registry config.runtimeDir family
  emission.notices.toList.forM fun notice => Host.notify (m := m) notice
  match result with
  | .error cause => throw (.emit family cause)
  | .ok () =>
    let path := filePath config.outputDir family
    match ← Host.writeFile (m := m) path emission.text with
    | .error cause => throw (.write path cause)
    | .ok () =>
      Host.notify (m := m) (.wrote path)
      if config.format then
        formatFile (m := m) config.formatter path
      return (emission.registry, path)

/--
Generate the files of namespaces, one after the other. The lookups of each one leave their traces in
the registry of the next.
-/
def writeFiles (config : Config) (registry : Registry) (families : List String) :
    ExceptT Error m (List Path) :=
  match families with
  | [] => return []
  | family :: families => do
    let (registry, path) ← writeFile config registry family
    return path :: (← writeFiles config registry families)

def run (config : Config) : ExceptT Error m (List Path) := do
  if config.protocols.isEmpty then
    throw .noProtocols
  let registry ← load config.protocols
  match ← Host.createDirectory (m := m) config.outputDir with
  | .error cause => throw (.createDirectory config.outputDir cause)
  | .ok () => writeFiles config registry registry.families

end Generate
end Waybind
