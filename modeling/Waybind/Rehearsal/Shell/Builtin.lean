import Waybind.Rehearsal.Shell.Builtin.Directory
import Waybind.Rehearsal.Shell.Builtin.Names
import Waybind.Rehearsal.Shell.Builtin.Signals
import Waybind.Rehearsal.Shell.Builtin.Variables

/-!
This module contains the commands that a shell runs itself, by their names.
-/

namespace Waybind
namespace Rehearsal
namespace Shell
namespace Builtin

def run (name : String) (args : List String) : ShellM Nat :=
  match name with
  | "echo" => echo args
  | "printf" => printf args
  | "test" => test args
  | "[" => bracket args
  | "false" => return 1
  | "exit" => exit args
  | "return" => returnFrom args
  | "break" => leave false args
  | "continue" => leave true args
  | "shift" => shift args
  | "set" => configure args
  | "export" => exportAll args
  | "readonly" => makeReadOnly args
  | "local" => makeLocal args
  | "unset" => unsetAll args
  | "getopts" => getopts args
  | "read" => readInto args
  | "cd" | "chdir" => cd args
  | "pwd" => pwd args
  | "umask" => umask args
  | "ulimit" => ulimit args
  | "times" => times
  | "alias" => setAliases args
  | "unalias" => removeAliases args
  | "hash" => hashNames args
  | "type" => describeAll args
  | "command" => describeCommand args
  | "kill" => kill args
  | "trap" => trap args
  | "jobs" => jobs args
  | "fg" | "bg" => continueJob args
  | _ => return 0

end Builtin
end Shell
end Rehearsal
end Waybind
