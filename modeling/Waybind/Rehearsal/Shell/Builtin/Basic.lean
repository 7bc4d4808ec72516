import Waybind.Rehearsal.Shell.Condition
import Waybind.Rehearsal.Shell.Fields
import Waybind.Rehearsal.Shell.Lookup
import Waybind.Rehearsal.Shell.Printf

/-!
This module contains what the commands that a shell runs itself have in common, and the simple ones
among them. Each one takes its arguments and gives its status.
-/

namespace Waybind
namespace Rehearsal
namespace Shell
namespace Builtin

abbrev Given : Type :=
  Char × String

def readLetters (plain valued : List Char) (cs : List Char) (args : List String) :
    ShellM (List Given × List String) := do
  match cs with
  | [] => return ([], args)
  | c :: cs =>
    if valued.contains c then
      match cs, args with
      | [], [] => ShellM.abort ("No arg for -" ++ String.singleton c ++ " option")
      | [], value :: args => return ([(c, value)], args)
      | cs, args => return ([(c, String.ofList cs)], args)
    else if plain.contains c then
      let (given, args) ← readLetters plain valued cs args
      return ((c, "") :: given, args)
    else
      ShellM.abort ("Illegal option -" ++ String.singleton c)

def readOptions (plain valued : List Char) (fuel : Nat) (args : List String) :
    ShellM (List Given × List String) := do
  match fuel, args with
  | fuel + 1, arg :: rest =>
    match arg.toList with
    | ['-', '-'] => return ([], rest)
    | '-' :: c :: cs =>
      let (given, rest) ← readLetters plain valued (c :: cs) rest
      let (others, rest) ← readOptions plain valued fuel rest
      return (given ++ others, rest)
    | _ => return ([], args)
  | _, args => return ([], args)

def options (plain : List Char) (args : List String) : ShellM (List Char × List String) := do
  let (given, args) ← readOptions plain [] (args.length + 1) args
  return (given.map (·.1), args)

def operands (args : List String) : ShellM (List String) := do
  return (← options [] args).2

def echo (args : List String) : ShellM Nat := do
  let (suppressed, args) :=
    match args with
    | "-n" :: args => (true, args)
    | args => (false, args)
  let (bytes, ended) := Escape.interpret {} [] (" ".intercalate args).toList
  ShellM.printBytes (bytes ++ if suppressed || ended then [] else [0x0A])
  return 0

def printf (args : List String) : ShellM Nat := do
  match ← operands args with
  | [] => ShellM.abort "usage: printf format [arg ...]"
  | text :: args =>
    let (result, progress) := (Printf.formatAll (args.length + 1) text.toList).run.run
      { args := args }
    for complaint in progress.complaints.reverse do
      ShellM.report complaint
    match result with
    | .error (some message) =>
      ShellM.report message
      ShellM.printBytes progress.output.reverse
      throw .error
    | _ =>
      ShellM.printBytes progress.output.reverse
      return if progress.complaints.isEmpty then 0 else 1

def test (args : List String) : ShellM Nat := do
  match Condition.holds (← get).process false args with
  | .ok true => return 0
  | .ok false => return 1
  | .error message => ShellM.abort message

def bracket (args : List String) : ShellM Nat := do
  if (args.getLast?.bind fun last => last.toList.head?) == some ']' then
    test args.dropLast
  else
    ShellM.abort "missing ]"

def exit (args : List String) : ShellM Nat := do
  match args with
  | [] => ShellM.leave
  | arg :: _ =>
    let status ← ShellM.count arg
    throw (.exit status)

def returnFrom (args : List String) : ShellM Nat := do
  match args with
  | [] => pure ()
  | arg :: _ => ShellM.setStatus (← ShellM.count arg)
  throw .returned

def leave (again : Bool) (args : List String) : ShellM Nat := do
  let count ←
    match args with
    | [] => pure 1
    | arg :: _ => ShellM.count arg
  if count == 0 then
    ShellM.abort ("Illegal number: " ++ args.headD "")
  let loops := (← get).loops
  if loops == 0 then
    return 0
  ShellM.setStatus 0
  throw (.loop (min count loops) again)

end Builtin
end Shell
end Rehearsal
end Waybind
