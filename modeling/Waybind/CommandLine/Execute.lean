import Waybind.CommandLine.Completion
import Waybind.Generate

/-!
This module contains what the program does with its command line.
-/

namespace Waybind
namespace CommandLine

inductive Failure where
  | config (cause : Config.Error)
  | generate (cause : Generate.Error)
deriving Repr, DecidableEq

def Failure.messages : Failure → List String
  | .config cause => cause.messages
  | .generate cause => cause.messages

/--
Replace the settings of a configuration by those that are given. Documents that are given replace
all of those in the configuration.
-/
def Options.apply (options : Options) (config : Config) : Config where
  protocols := if options.protocols.isEmpty then config.protocols else options.protocols
  outputDir := options.outputDir.getD config.outputDir
  runtimeDir := options.runtimeDir.getD config.runtimeDir
  format := config.format && !options.noFormat
  formatter := config.formatter

variable {m : Type → Type} [Monad m] [Host m]

def generate (options : Options) : ExceptT Failure m Unit := do
  let config ← ExceptT.adapt .config (Config.locate (m := m) options.config)
  let config := options.apply config
  match config.validate with
  | .error cause => throw (.config cause)
  | .ok () =>
    let files ← ExceptT.adapt .generate (Generate.run (m := m) config)
    Host.notify (m := m) (.generated files.length config.outputDir)

def execute (command : Command) : m Nat := do
  match command with
  | .completion shell =>
    Host.print shell.completion
    return 0
  | .generate options =>
    match ← (generate options).run with
    | .ok () => return 0
    | .error failure =>
      Host.notify (.failed (": ".intercalate failure.messages))
      return 1

end CommandLine
end Waybind
