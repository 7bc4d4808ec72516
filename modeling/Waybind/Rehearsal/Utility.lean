import Waybind.Rehearsal.Utility.Cat
import Waybind.Rehearsal.Utility.Copy
import Waybind.Rehearsal.Utility.Echo
import Waybind.Rehearsal.Utility.Remove

/-!
This module contains the utilities that can be run in a rehearsal. Each one is a function of its
arguments, of what it can read and of the tree.
-/

namespace Waybind
namespace Rehearsal
namespace Utility

def run (program name : String) (args : List String) : ProcessM ExitStatus :=
  match program with
  | "echo" => (echo args).finish name
  | "cat" => (Cat.run args).finish name
  | "rm" => (Remove.run args).finish name
  | "cp" => (Copy.run args).finish name
  | "false" => return .exited 1
  | _ => return .exited 0

end Utility
end Rehearsal
end Waybind
