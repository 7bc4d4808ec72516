import Waybind.Config.Toml
import Waybind.Host
import Waybind.Text.Utf8

/-!
This module contains the configuration of a run: its defaults, its text form, and where it is loaded
from.
-/

namespace Waybind

/--
The configuration of a run: the documents in the order of their registration, the directory that the
bindings are written to, the directory of the client as seen from there, and the formatter, which is
a program and its arguments.
-/
structure Config where
  protocols : List Path := []
  outputDir : Path := ⟨"generated"⟩
  runtimeDir : String := ".."
  format : Bool := true
  formatter : List String := ["zig", "fmt"]
deriving Repr, DecidableEq, Inhabited

namespace Config

inductive Error where
  | read (path : Path) (cause : HostError)
  | parse (path : Path)
  | emptyFormatter
deriving Repr, DecidableEq

def Error.messages : Error → List String
  | .read path cause => ["Could not read " ++ path.text, cause.message]
  | .parse path => ["Could not parse " ++ path.text, "TOML parse error"]
  | .emptyFormatter => ["Formatting is enabled but the formatter command is empty"]

def set? (config : Config) (key : String) (value : Toml.Value) : Option Config :=
  match key, value with
  | "protocols", .strings texts => some { config with protocols := texts.map Path.mk }
  | "output-dir", .string text => some { config with outputDir := ⟨text⟩ }
  | "runtime-dir", .string text => some { config with runtimeDir := text }
  | "format", .boolean value => some { config with format := value }
  | "formatter", .strings texts => some { config with formatter := texts }
  | _, _ => none

def parse? (text : String) : Option Config := do
  let pairs ← Toml.parse? text
  pairs.entries.foldlM (fun config (key, value) => config.set? key value) {}

def resolvePaths (config : Config) (base : Path) : Config :=
  { config with
    protocols := config.protocols.map base.join
    outputDir := base.join config.outputDir }

def validate (config : Config) : Except Error Unit :=
  if config.format && config.formatter.isEmpty then
    .error .emptyFormatter
  else
    .ok ()

def defaultPath : Path :=
  ⟨"wlzig.toml"⟩

variable {m : Type → Type} [Monad m] [Host m]

/--
Load a configuration file. Paths in it are relative to the directory that it is in.
-/
def load (path : Path) : ExceptT Error m Config := do
  match ← Host.readFile (m := m) path with
  | .error cause => throw (.read path cause)
  | .ok bytes =>
    match Utf8.decode bytes with
    | .error _ => throw (.read path .invalidText)
    | .ok text =>
      match parse? text with
      | none => throw (.parse path)
      | some config =>
        Host.notify (m := m) (.configured path)
        match path.parent? with
        | some base => return config.resolvePaths base
        | none => return config

/--
Load the given configuration file, or else the one in the working directory, or else take the
defaults.
-/
def locate (explicit : Option Path) : ExceptT Error m Config := do
  match explicit with
  | some path => load path
  | none =>
    if ← Host.pathExists (m := m) defaultPath then
      load defaultPath
    else
      return {}

end Config
end Waybind
