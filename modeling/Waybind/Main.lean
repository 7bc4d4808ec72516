import Waybind.CommandLine.Execute

/-!
This module contains the program. It runs on the real file system and has its log on the standard
error. It starts no other programs, so that formatting ends in a warning.
-/

namespace Waybind

abbrev ConsoleM : Type → Type :=
  ReaderT Level IO

namespace ConsoleM

def hostError (error : IO.Error) : HostError :=
  match error with
  | .noFileOrDirectory .. => .notFound
  | .permissionDenied .. => .permissionDenied
  | .alreadyExists .. => .alreadyExists
  | error => .other (toString error)

def attempt {α : Type} (action : IO α) : ConsoleM (Except HostError α) := do
  try
    return .ok (← action)
  catch error =>
    return .error (hostError error)

instance : Host ConsoleM where
  readFile path := attempt do return (← IO.FS.readBinFile path.text).toList
  pathExists path := do
    match ← attempt (IO.FS.Handle.mk path.text .read) with
    | .error .notFound => return false
    | _ => return true
  createDirectory path := attempt (IO.FS.createDirAll path.text)
  writeFile path text := attempt (IO.FS.writeFile path.text text)
  runProgram _ _ := return .error (.other "programs cannot be run")
  print text := do IO.print text
  notify notice := do IO.eprint (notice.entry (← read))

end ConsoleM
end Waybind

def main (args : List String) : IO UInt32 := do
  match Waybind.CommandLine.parse args with
  | .error .help =>
    IO.print Waybind.CommandLine.usage
    return 0
  | .error .usage =>
    IO.eprint Waybind.CommandLine.usage
    return 2
  | .ok invocation =>
    let run : Waybind.ConsoleM Nat := Waybind.CommandLine.execute invocation.command
    return UInt32.ofNat (← run.run invocation.level)
