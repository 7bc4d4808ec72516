import Waybind.Rehearsal.Shell.State

/-!
This module contains what the name of a command stands for: a function, a command that the shell
runs itself, or a program.
-/

namespace Waybind
namespace Rehearsal
namespace Shell

def otherBuiltins : List String := [
  "[", "alias", "bg", "cd", "chdir", "command", "echo", "false", "fg", "getopts", "hash", "jobs",
  "kill", "printf", "pwd", "read", "test", "true", "type", "ulimit", "umask", "unalias", "wait"]

def isBuiltin (name : String) : Bool :=
  specialBuiltins.contains name || otherBuiltins.contains name

def defaultPath : String :=
  "/usr/local/sbin:/usr/local/bin:/usr/sbin:/usr/bin:/sbin:/bin"

def candidates (directories name : String) : List String :=
  (Text.pieces (· == ':') directories.toList).map fun directory =>
    if directory.isEmpty then name else String.ofList directory ++ "/" ++ name

def firstProgram (process : Process) (failure : HostError) (paths : List String) :
    Except HostError (String × String) :=
  match paths with
  | [] => .error failure
  | path :: paths =>
    match Process.programAt process.tree process.directory (Process.pathOf path) with
    | .ok program => .ok (path, program)
    | .error .notFound | .error .notDirectory => firstProgram process failure paths
    | .error error => firstProgram process error paths

def locate (shell : Shell) (directories : Option String) (name : String) :
    Except HostError (String × String) :=
  let process := shell.process
  if name.toList.contains '/' then
    (Process.programAt process.tree process.directory (Process.pathOf name)).map (name, ·)
  else
    let path := directories.getD ((shell.namedValue? "PATH").getD "")
    firstProgram process .notFound (candidates path name)

def remember (name path : String) : ShellM Unit :=
  modify fun shell =>
    if (shell.known.lookup name).isSome then shell
    else { shell with known := shell.known ++ [(name, path)] }

def slot (size : Nat) (name : String) : Nat :=
  let first := (name.toList.head?.map Char.toNat).getD 0
  (name.toList.foldl (fun sum c => sum + c.toNat) (16 * first)) % size

def inSlots {α : Type} (size : Nat) (entries : List (String × α)) : List (String × α) :=
  entries.mergeSort fun a b => slot size a.1 ≤ slot size b.1

def singleQuoted (cs : List Char) (fuel : Nat) : List Char :=
  match fuel with
  | 0 => []
  | fuel + 1 =>
    let plain := cs.takeWhile (· != '\'')
    let rest := cs.drop plain.length
    let quotes := rest.takeWhile (· == '\'')
    let after := rest.drop quotes.length
    let front := '\'' :: plain ++ ['\'']
    if quotes.isEmpty then
      front
    else
      let front := front ++ '"' :: quotes ++ ['"']
      if after.isEmpty then front else front ++ singleQuoted after fuel

def quoteText (text : String) : String :=
  String.ofList (singleQuoted text.toList (text.length + 1))

end Shell
end Rehearsal
end Waybind
