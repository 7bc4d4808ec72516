import Waybind.Rehearsal.Options
import Waybind.Rehearsal.Quoting

/-!
This module contains what all utilities do alike: they complain under the name that they were called
by, go on after most failures, and report the failures at their end.
-/

namespace Waybind
namespace Rehearsal

structure Report where
  failed : Bool := false
  lost : Option HostError := none

abbrev UtilityM : Type → Type :=
  ReaderT String (ExceptT Unit (StateT Report ProcessM))

namespace UtilityM

def process {α : Type} (action : ProcessM α) : UtilityM α :=
  fun _ => ExceptT.lift (StateT.lift action)

def complain (message : String) : UtilityM Unit := do
  process (Process.printError ((← read) ++ ": " ++ message ++ "\n"))
  modify fun report => { report with failed := true }

def warn (message : String) : UtilityM Unit := do
  process (Process.printError ((← read) ++ ": " ++ message ++ "\n"))

def giveUp {α : Type} (message : String) : UtilityM α := do
  complain message
  throw ()

def refuse {α : Type} (message : String) : UtilityM α := do
  complain message
  process (Process.printError ("Try '" ++ (← read) ++ " --help' for more information.\n"))
  throw ()

def writeBytes (bytes : List UInt8) : UtilityM (Except HostError Unit) :=
  process (Process.write 1 bytes)

def print (text : String) : UtilityM Unit := do
  match ← writeBytes (Octets.toBytes text) with
  | .ok () => return
  | .error error => modify fun report => { report with lost := some error }

def ask (question : String) : UtilityM Bool := do
  process (Process.printError ((← read) ++ ": " ++ question ++ "? "))
  let answer ← process (Process.readLine 0 false)
  let first := (answer.toOption.getD []).head?
  return first == some 0x79 || first == some 0x59

def choose (choices : Choices) (context text : String) : UtilityM Nat := do
  match choices.find text with
  | .ok index => return index
  | .error fault => refuse (choices.refusal fault text context)

def finish (action : UtilityM Unit) (name : String) : ProcessM ExitStatus := do
  let (_, report) ← ((action.run name).run).run {}
  match report.lost with
  | none => return .exited (if report.failed then 1 else 0)
  | some error =>
    Process.printError (name ++ ": write error: " ++ Process.reason error ++ "\n")
    return .exited 1

end UtilityM
end Rehearsal
end Waybind
