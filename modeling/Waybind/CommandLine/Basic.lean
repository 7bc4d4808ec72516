import Waybind.Path
import Waybind.Notice

/-!
This module contains the command line: what the arguments of the program ask for.
-/

namespace Waybind
namespace CommandLine

structure Options where
  protocols : List Path := []
  config : Option Path := none
  outputDir : Option Path := none
  runtimeDir : Option String := none
  noFormat : Bool := false
deriving Repr, DecidableEq

inductive Shell where
  | bash
  | elvish
  | fish
  | powershell
  | zsh
deriving Repr, DecidableEq

namespace Shell

def all : List Shell :=
  [.bash, .elvish, .fish, .powershell, .zsh]

def name : Shell → String
  | .bash => "bash"
  | .elvish => "elvish"
  | .fish => "fish"
  | .powershell => "powershell"
  | .zsh => "zsh"

def ofName? (name : String) : Option Shell :=
  all.find? (·.name == name)

end Shell

inductive Command where
  | generate (options : Options)
  | completion (shell : Shell)
deriving Repr, DecidableEq

structure Invocation where
  level : Level
  command : Command
deriving Repr, DecidableEq

inductive Stop where
  | usage
  | help
deriving Repr, DecidableEq

inductive Form where
  | escape
  | long (name : String) (value : Option String)
  | short (names : List Char)
  | plain
deriving Repr, DecidableEq

def Form.ofLong (cs : List Char) : Form :=
  let name := String.ofList (cs.takeWhile (· != '='))
  match cs.dropWhile (· != '=') with
  | [] => .long name none
  | _ :: value => .long name (some (String.ofList value))

def Form.of (arg : String) : Form :=
  match arg.toList with
  | ['-', '-'] => .escape
  | '-' :: '-' :: cs => .ofLong cs
  | '-' :: c :: cs => .short (c :: cs)
  | _ => .plain

def stopAtShort (names : List Char) : Stop :=
  if names.head? = some 'h' then .help else .usage

def stopAtFlag (name : String) (value : Option String) : Stop :=
  if name = "help" && value.isNone then .help else .usage

def path (text : String) : Except Stop Path :=
  if text.isEmpty then .error .usage else .ok ⟨text⟩

/--
Set an option that has a value. An option can be given only once.
-/
def Options.set (options : Options) (name value : String) : Except Stop Options := do
  match name, options with
  | "config", { config := none, .. } => return { options with config := some (← path value) }
  | "output-dir", { outputDir := none, .. } =>
    return { options with outputDir := some (← path value) }
  | "runtime-dir", { runtimeDir := none, .. } => return { options with runtimeDir := some value }
  | _, _ => throw .usage

def Options.addProtocol (options : Options) (text : String) : Except Stop Options := do
  return { options with protocols := options.protocols ++ [← path text] }

def valueOptions : List String :=
  ["config", "output-dir", "runtime-dir"]

def parseGenerate (options : Options) (args : List String) : Except Stop Options :=
  match args with
  | [] => .ok options
  | arg :: args =>
    match Form.of arg with
    | .escape => args.foldlM Options.addProtocol options
    | .plain => do parseGenerate (← options.addProtocol arg) args
    | .short names => .error (stopAtShort names)
    | .long "no-format" none =>
      if options.noFormat then .error .usage
      else parseGenerate { options with noFormat := true } args
    | .long name (some value) => do
      if valueOptions.contains name then parseGenerate (← options.set name value) args
      else throw (stopAtFlag name (some value))
    | .long name none =>
      if valueOptions.contains name then
        match args with
        | [] => .error .usage
        | value :: args =>
          match Form.of value with
          | .plain => do parseGenerate (← options.set name value) args
          | _ => .error .usage
      else
        .error (stopAtFlag name none)

def parseCompletion (shell : Option Shell) (args : List String) : Except Stop Shell :=
  match args with
  | [] =>
    match shell with
    | some shell => .ok shell
    | none => .error .usage
  | arg :: args =>
    match Form.of arg with
    | .escape =>
      match shell, args with
      | some shell, [] => .ok shell
      | none, [name] =>
        match Shell.ofName? name with
        | some shell => .ok shell
        | none => .error .usage
      | _, _ => .error .usage
    | .plain =>
      match shell, Shell.ofName? arg with
      | none, some shell => parseCompletion (some shell) args
      | _, _ => .error .usage
    | .short names => .error (stopAtShort names)
    | .long name value => .error (stopAtFlag name value)

def parseCommand (name : String) (args : List String) : Except Stop Command :=
  match name with
  | "generate" => .generate <$> parseGenerate {} args
  | "generate-completion" => .completion <$> parseCompletion none args
  | "help" =>
    match args with
    | [] | ["generate"] | ["generate-completion"] | ["help"] => .error .help
    | _ => .error .usage
  | _ => .error .usage

def setLevel (level : Option Level) (value : String) : Except Stop Level :=
  match level, Level.ofName? value with
  | none, some level => .ok level
  | _, _ => .error .usage

def settleLevel (level : Option Level) (value : Option String) : Except Stop (Option Level) :=
  match value with
  | none => .ok level
  | some value => some <$> setLevel level value

/--
Read the arguments of the program: the log level, and then a subcommand. A level that is an argument
of its own is put off, and only looked at when there is another option or after the subcommand has
been read. So a subcommand can ask for help before a wrong level.
-/
def parseFrom (level : Option Level) (later : Option String) (args : List String) :
    Except Stop Invocation :=
  match args with
  | [] => .error .usage
  | arg :: args =>
    match Form.of arg with
    | .escape => .error .usage
    | .plain => do
      let command ← parseCommand arg args
      return ⟨(← settleLevel level later).getD .info, command⟩
    | .short names => do
      discard (settleLevel level later)
      throw (stopAtShort names)
    | .long "log-level" (some value) => do
      let level ← settleLevel level later
      parseFrom (some (← setLevel level value)) none args
    | .long "log-level" none =>
      match args with
      | [] => .error .usage
      | value :: args => do
        let level ← settleLevel level later
        match Form.of value with
        | .plain => parseFrom level (some value) args
        | _ => throw .usage
    | .long name value => do
      discard (settleLevel level later)
      throw (stopAtFlag name value)

def parse (args : List String) : Except Stop Invocation :=
  parseFrom none none args

def usage : String :=
  "Usage: wlzig [--log-level <LEVEL>] generate [--config <PATH>] [--output-dir <PATH>]\n"
    ++ "                                        [--runtime-dir <DIR>] [--no-format] [PROTOCOL]...\n"
    ++ "       wlzig [--log-level <LEVEL>] generate-completion <SHELL>\n"

end CommandLine
end Waybind
