import Waybind.Notice

/-!
This module contains what a run may ask of the system that it runs on: to read and write files, to
create directories, to run a program and to keep a log.
-/

namespace Waybind

inductive HostError where
  | notFound
  | permissionDenied
  | alreadyExists
  | notDirectory
  | isDirectory
  | nameTooLong
  | invalidText
  | other (message : String)
deriving Repr, DecidableEq, Inhabited

def HostError.message : HostError → String
  | .notFound => "No such file or directory (os error 2)"
  | .permissionDenied => "Permission denied (os error 13)"
  | .alreadyExists => "File exists (os error 17)"
  | .notDirectory => "Not a directory (os error 20)"
  | .isDirectory => "Is a directory (os error 21)"
  | .nameTooLong => "File name too long (os error 36)"
  | .invalidText => "stream did not contain valid UTF-8"
  | .other message => message

inductive ExitStatus where
  | exited (code : Nat)
  | signaled (signal : Nat)
deriving Repr, DecidableEq, Inhabited

namespace ExitStatus

def isSuccess (status : ExitStatus) : Bool :=
  status == .exited 0

def signalNames : List String := [
  "SIGHUP", "SIGINT", "SIGQUIT", "SIGILL", "SIGTRAP", "SIGABRT", "SIGBUS", "SIGFPE", "SIGKILL",
  "SIGUSR1", "SIGSEGV", "SIGUSR2", "SIGPIPE", "SIGALRM", "SIGTERM", "SIGSTKFLT", "SIGCHLD",
  "SIGCONT", "SIGSTOP", "SIGTSTP", "SIGTTIN", "SIGTTOU", "SIGURG", "SIGXCPU", "SIGXFSZ",
  "SIGVTALRM", "SIGPROF", "SIGWINCH", "SIGIO", "SIGPWR", "SIGSYS"]

def render : ExitStatus → String
  | .exited code => s!"exit status: {code}"
  | .signaled signal =>
    match signalNames[signal - 1]? with
    | some name => s!"signal: {signal} ({name})"
    | none => s!"signal: {signal}"

end ExitStatus

/--
A system that a run can take place on.
* `readFile` gives the bytes of a file.
* `pathExists` tells whether there is anything at a path.
* `createDirectory` creates a directory with its parents. An existing one is fine.
* `writeFile` creates or replaces a file.
* `runProgram` runs a program with arguments until it ends.
* `print` writes to the standard output.
* `notify` leaves a notice in the log.
-/
class Host (m : Type → Type) where
  readFile : Path → m (Except HostError (List UInt8))
  pathExists : Path → m Bool
  createDirectory : Path → m (Except HostError Unit)
  writeFile : Path → String → m (Except HostError Unit)
  runProgram : String → List String → m (Except HostError ExitStatus)
  print : String → m Unit
  notify : Notice → m Unit

end Waybind
