import Waybind.Rehearsal.Shell.Builtin.Basic

/-!
This module contains the built-in commands about signals and other processes.
-/

namespace Waybind
namespace Rehearsal
namespace Shell
namespace Builtin

def signalNames : List String :=
  ["EXIT", "HUP", "INT", "QUIT", "ILL", "TRAP", "ABRT", "BUS", "FPE", "KILL", "USR1", "SEGV",
    "USR2", "PIPE", "ALRM", "TERM", "16", "CHLD", "CONT", "STOP", "TSTP", "TTIN", "TTOU", "URG",
    "XCPU", "XFSZ", "VTALRM", "PROF", "WINCH", "IO", "PWR", "SYS", "32", "33", "RTMIN"]
  ++ (List.range 15).map (fun index => "RTMIN+" ++ toString (index + 1))
  ++ (List.range 14).map (fun index => "RTMAX-" ++ toString (14 - index))
  ++ ["RTMAX"]

def signalNumber? (text : String) : Option Nat :=
  if !text.isEmpty && text.toList.all Char.isDigit then
    let number := (Number.digits 10 0 text.toList).1
    if number ≤ 64 then some number else none
  else
    none

def signal? (least : Nat) (text : String) : Option Nat :=
  match signalNumber? text with
  | some number => some number
  | none =>
    let upper := text.map Char.toUpper
    (signalNames.findIdx? (· == upper)).filter (least ≤ ·)

def killUsage : String :=
  "Usage: kill [-s sigspec | -signum | -sigspec] [pid | job]... or\nkill -l [exitstatus]"

def job (text : String) : ShellM Job := do
  let jobs := (← get).jobs
  let need (found : Option Job) (message : String) : ShellM Job := do
    match found with
    | some job => return job
    | none => ShellM.abort message
  match text.toList with
  | ['%'] | ['%', '%'] | ['%', '+'] => need jobs.head? "No current job"
  | ['%', '-'] => need jobs[1]? "No previous job"
  | ['%', '?'] =>
    if 1 < jobs.length then
      ShellM.abort (text ++ ": ambiguous")
    need jobs.head? ("No such job: " ++ text)
  | '%' :: rest =>
    let slot := Number.count? (String.ofList rest)
    need (jobs.find? fun job => slot == some job.slot) ("No such job: " ++ text)
  | _ => ShellM.abort ("No such job: " ++ text)

def sendToJob (signal : Nat) (job : Job) : ShellM Bool := do
  let shell ← get
  let ignores := ShellM.isHarmless signal || [2, 3].contains signal
    || shell.traps.contains (signal, "")
  if job.status.isNone && !ignores then
    set { shell with
      deferred := shell.deferred.filter (·.1 != job.number)
      jobs := shell.jobs.map fun (other : Job) =>
        if other.number == job.number then { job with status := some (.signaled signal) }
        else other }
  return !job.waited

def sendTo (signal number : Nat) : ShellM Bool := do
  let shell ← get
  if number == shell.self || number == 0 then
    ShellM.receive signal
    return true
  else if shell.ancestors.contains number then
    if signal != 0 then
      set { shell with sent := shell.sent ++ [(number, signal)] }
    return true
  else
    match shell.jobs.find? (·.number == number) with
    | some job => sendToJob signal job
    | none => return false

def sendAll (signal status : Nat) (args : List String) : ShellM Nat := do
  match args with
  | [] => return status
  | arg :: args =>
    let isThere ←
      match arg.toList with
      | '%' :: _ => do
        discard <| job arg
        pure false
      | '-' :: digits => do
        discard <| ShellM.count (String.ofList digits)
        pure false
      | _ => sendTo signal (← ShellM.count arg)
    if isThere then
      sendAll signal status args
    else
      ShellM.report "No such process\n"
      sendAll signal 1 args

def listSignals (args : List String) : ShellM Nat := do
  match args with
  | [] => ShellM.print ("0\n" ++ String.join ((signalNames.drop 1).map (· ++ "\n")))
  | arg :: _ =>
    let status ← ShellM.count arg
    let signal := if 128 < status then status - 128 else status
    match signal, signalNames[signal]? with
    | _ + 1, some name => ShellM.print (name ++ "\n")
    | _, _ => ShellM.abort ("invalid signal number or exit status: " ++ arg)
  return 0

def kill (args : List String) : ShellM Nat := do
  let send (signal : Nat) (args : List String) : ShellM Nat := do
    if args.isEmpty then
      ShellM.abort killUsage
    sendAll signal 0 args
  match args with
  | [] => ShellM.abort killUsage
  | arg :: rest =>
    match arg.toList with
    | '-' :: text =>
      match signal? 1 (String.ofList text) with
      | some signal => send signal rest
      | none =>
        let (given, rest) ← readOptions ['l'] ['s'] (args.length + 1) args
        let signals ← given.filterMapM fun (letter, name) => do
          if letter == 's' then
            match signal? 1 name with
            | some signal => return some signal
            | none => ShellM.abort ("invalid signal number or name: " ++ name)
          else
            return none
        if given.any (·.1 == 'l') then
          if !signals.isEmpty && !rest.isEmpty then
            ShellM.abort killUsage
          listSignals rest
        else
          send (signals.getLast?.getD 15) rest
    | _ => send 15 args

def trap (args : List String) : ShellM Nat := do
  let args ← operands args
  match args with
  | [] =>
    for (name, signal) in signalNames.zipIdx do
      match (← get).traps.lookup signal with
      | some action => ShellM.print ("trap -- " ++ quoteText action ++ " " ++ name ++ "\n")
      | none => pure ()
    return 0
  | first :: rest =>
    let resets := rest.isEmpty || (signalNumber? first).isSome
    let action := if resets || first == "-" then none else some first
    for text in if resets then args else rest do
      match signal? 0 text with
      | none =>
        ShellM.printError ("trap: " ++ text ++ ": bad trap\n")
        return 1
      | some signal =>
        modify fun shell =>
          let others := shell.traps.filter (·.1 != signal)
          { shell with traps := (action.map fun action => (signal, action)).toList ++ others }
    return 0

def signalTexts : List String := [
  "Hangup", "Interrupt", "Quit", "Illegal instruction", "Trace/breakpoint trap", "Aborted",
  "Bus error", "Floating point exception", "Killed", "User defined signal 1", "Segmentation fault",
  "User defined signal 2", "Broken pipe", "Alarm clock", "Terminated", "Stack fault",
  "Child exited", "Continued", "Stopped (signal)", "Stopped", "Stopped (tty input)",
  "Stopped (tty output)", "Urgent I/O condition", "CPU time limit exceeded",
  "File size limit exceeded", "Virtual timer expired", "Profiling timer expired", "Window changed",
  "I/O possible", "Power failure", "Bad system call"]

def signalText (signal : Nat) : String :=
  (signalTexts[signal - 1]?).getD s!"Real-time signal {signal - 34}"

def conclude (isKnown : Bool) (status : ExitStatus) : ShellM Nat := do
  match status with
  | .exited code => return code
  | .signaled signal =>
    if !isKnown && !([2, 13].contains signal) then
      ShellM.printError (signalText signal ++ "\n")
    return 128 + signal

def wait (args : List String) : ShellM Nat := do
  let args ← operands args
  let note (wanted : Job → Bool) : ShellM Unit :=
    modify fun shell =>
      { shell with
        jobs := shell.jobs.map fun (job : Job) =>
          if wanted job then { job with noticed := true, waited := true } else job }
  if args.isEmpty then
    note fun _ => true
    return 0
  let mut status := 127
  for arg in args do
    let found ←
      if arg.toList.head? == some '%' then
        some <$> job arg
      else
        let number ← ShellM.count arg
        pure ((← get).jobs.find? (·.number == number))
    match found with
    | some job =>
      note (·.number == job.number)
      status ← conclude job.noticed (job.status.getD (.exited 0))
    | none => pure ()
  return status

def continueJob (args : List String) : ShellM Nat := do
  let arg? := (← operands args).head?
  discard <| job (arg?.getD "%")
  ShellM.abort ("job " ++ arg?.getD "(null)" ++ " not created under job control")

def showJob (letters : List Char) (job : Job) : ShellM Unit := do
  let jobs := (← get).jobs
  if letters.contains 'p' then
    ShellM.print s!"{job.number}\n"
  else
    let state :=
      match job.status with
      | none => "Running"
      | some (.exited 0) => "Done"
      | some (.exited code) => s!"Done({code})"
      | some (.signaled signal) => signalText signal
    let mark :=
      if jobs.head?.map (·.slot) == some job.slot then "+"
      else if jobs[1]?.map (·.slot) == some job.slot then "-"
      else " "
    let number := if letters.contains 'l' then s!"{job.number} " else ""
    let text := s!"[{job.slot}] {mark} {number}{state}"
    let blanks := String.ofList (List.replicate (max 1 (33 - text.length)) ' ')
    let pipes := String.join (List.replicate job.pipes " | ")
    ShellM.print (text ++ blanks ++ pipes ++ "\n")
    if job.status.isSome then
      modify fun shell => { shell with jobs := jobs.filter (·.slot != job.slot) }

def jobs (args : List String) : ShellM Nat := do
  let (letters, args) ← options ['l', 'p'] args
  if args.isEmpty then
    for job in (← get).jobs do
      showJob letters job
  for arg in args do
    showJob letters (← job arg)
  return 0

end Builtin
end Shell
end Rehearsal
end Waybind
