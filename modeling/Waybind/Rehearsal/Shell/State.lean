import Waybind.Rehearsal.Shell.Number
import Waybind.Rehearsal.Shell.Parse
import Waybind.Text.Blank

/-!
This module contains the state of a shell that runs a script, and the ways in which a command can
end more than itself.
-/

namespace Waybind
namespace Rehearsal

structure Shell.Variable where
  value : Option String
  exported : Bool := false
  readOnly : Bool := false
deriving Repr

inductive Shell.Saved where
  | entry (name : String) (old : Option Shell.Variable)
  | options (old : List Char)

/--
A command in the background, and how it ended if it has. `slot` is its place among the others, and
`pipes` says how many of the parts that run it are connected to the next one. `noticed` tells that
the shell knows about its end, and `waited` that it has been asked for.
-/
structure Shell.Job where
  slot : Nat
  number : Nat
  pipes : Nat := 0
  status : Option ExitStatus := none
  noticed : Bool := false
  waited : Bool := false

/--
A shell.

- `name` is what the script is called by, and `directory` the path that it has reached.
- `number` is the number of the process of the script, `self` that of the process that runs it,
  which differ in a subshell, and `ancestors` those of the processes further out, nearest first.
- `known` has the programs that have been found, with their paths.
- `options` holds the letters of the options that are set.
- `outputStatus` is the status of the last command whose output has been put into a word.
- `line` is the line of the script that is run, `readTo` the one up to which it has been read, and
  `command` the built-in command that is run.
- `loops`, `calls` and `sources` say how many loops, functions and texts of commands there are around
  it. `locals` is what is put back at the end of a command for which variables can be made local.
- `ignored` holds the signals that the shell never gets.
- `traps` is what is run on a signal, or at the end, which has the number zero. `pending` holds the
  signals that have arrived, `sent` those for shells further out, and `interrupted` is the status
  before what is run on a signal.
- `jobs` are the commands in the background, the newest first, and `deferred` those of them that
  have yet to run, which they do in the shell as it was, once this one waits for anything.
- `lost` tells that output of the built-in command could not be written.
- `position` is the argument at which the reading of options goes on, and `offset` the character.
-/
structure Shell where
  process : Process
  name : String
  number : Nat
  self : Nat
  ancestors : List Nat := []
  directory : String
  args : List String := []
  scope : List (String × Shell.Variable) := []
  functions : List (String × Shell.Command) := []
  aliases : List (String × String) := []
  known : List (String × String) := []
  documents : Array Shell.Word := #[]
  options : List Char := []
  status : Nat := 0
  outputStatus : Nat := 0
  line : Nat := 0
  readTo : Nat := 0
  command : Option String := none
  loops : Nat := 0
  calls : Nat := 0
  sources : Nat := 0
  locals : Option (List Shell.Saved) := none
  ignored : List Nat := []
  traps : List (Nat × String) := []
  pending : List Nat := []
  sent : List (Nat × Nat) := []
  interrupted : Option Nat := none
  jobs : List Shell.Job := []
  deferred : List (Nat × Shell × Shell.Command) := []
  background : Option Nat := none
  tracing : Bool := false
  lost : Bool := false
  position : Nat := 1
  offset : Option Nat := none

namespace Shell

/--
How a command ends more than itself: the shell, a number of loops, or a function. An error has been
reported already. With `gone` there is nothing left that could run what is chosen for the end.
-/
inductive Jump where
  | exit (status : Nat)
  | gone (status : ExitStatus)
  | error
  | loop (count : Nat) (again : Bool)
  | returned

abbrev ShellM : Type → Type :=
  ExceptT Jump (StateM Shell)

def namedValue? (shell : Shell) (name : String) : Option String := do
  let entry ← shell.scope.lookup name
  entry.value

def has (shell : Shell) (option : Char) : Bool :=
  shell.options.contains option

def isTrapping (shell : Shell) : Bool :=
  shell.traps.any fun (_, action) => !action.isEmpty

def optionNames : List (Char × String) := [
  ('e', "errexit"), ('f', "noglob"), ('I', "ignoreeof"), ('i', "interactive"), ('m', "monitor"),
  ('n', "noexec"), ('s', "stdin"), ('x', "xtrace"), ('v', "verbose"), ('V', "vi"), ('E', "emacs"),
  ('C', "noclobber"), ('a', "allexport"), ('b', "notify"), ('u', "nounset"), ('p', "privileged"),
  ('\x01', "nolog"), ('\x02', "debug")]

def optionLetters (shell : Shell) : String :=
  String.ofList ((optionNames.map (·.1)).reverse.filter fun letter =>
    ' ' < letter && shell.has letter)

def separators (shell : Shell) : List Char :=
  ((shell.namedValue? "IFS").getD " \t\n").toList

def value? (shell : Shell) (name : String) : Option String :=
  match name with
  | "#" => some (toString shell.args.length)
  | "?" => some (toString shell.status)
  | "$" => some (toString shell.number)
  | "!" => shell.background.map toString
  | "-" => some shell.optionLetters
  | name =>
    if name.any (fun (c : Char) => !c.isDigit) then
      shell.namedValue? name
    else
      match (Numeral.number 10 Numeral.maxUInt32 .tooLarge name.toList).toOption with
      | some (position + 1) => shell.args[position]?
      | some 0 => some shell.name
      | none => none

namespace ShellM

def process {α : Type} (action : ProcessM α) : ShellM α :=
  modifyGet fun shell =>
    let (result, process) := action.run shell.process
    (result, { shell with process := process })

def setStatus (status : Nat) : ShellM Unit :=
  modify fun shell => { shell with status := status }

def setLine (line : Nat) : ShellM Unit :=
  modify fun shell => { shell with line := line }

def printError (text : String) : ShellM Unit :=
  process (Process.printError text)

def report (message : String) : ShellM Unit := do
  let shell ← get
  let command := (shell.command.map (· ++ ": ")).getD ""
  printError (shell.name ++ ": " ++ toString shell.line ++ ": " ++ command ++ message ++ "\n")

def abort {α : Type} (message : String) : ShellM α := do
  report message
  throw .error

def abortAt {α : Type} (line : Nat) (message : String) : ShellM α := do
  setLine line
  abort message

def leave {α : Type} : ShellM α := do
  let shell ← get
  throw (.exit (shell.interrupted.getD shell.status))

def count (text : String) : ShellM Nat := do
  match Number.count? text with
  | some count => return count
  | none => abort ("Illegal number: " ++ text)

def setEntry (name : String) (entry : Option Variable) : ShellM Unit :=
  modify fun shell =>
    let others := shell.scope.filter (·.1 != name)
    { shell with
      scope := (entry.map fun entry => (name, entry)).toList ++ others
      known := if name == "PATH" then [] else shell.known }

def checkWritable (name : String) : ShellM Unit := do
  if ((← get).scope.lookup name).elim false (·.readOnly) then
    abort (name ++ ": is read only")

def assign (name value : String) : ShellM Unit := do
  checkWritable name
  if name == "OPTIND" then
    let position ← count value
    modify fun shell => { shell with position := max position 1, offset := none }
  let shell ← get
  let old := (shell.scope.lookup name).getD { value := none }
  setEntry name (some { old with value := some value, exported := old.exported || shell.has 'a' })

def nameOf (text : String) : ShellM String := do
  let name := String.ofList (text.toList.takeWhile (· != '='))
  if !isName name then
    abort (name ++ ": bad variable name")
  return name

def assignNamed (text value : String) : ShellM Unit := do
  assign (← nameOf text) value

def mark (name : String) (update : Variable → Variable) : ShellM Unit := do
  let old := ((← get).scope.lookup name).getD { value := none }
  setEntry name (some (update old))

def unset (text : String) : ShellM Unit := do
  let name ← nameOf text
  checkWritable name
  setEntry name none

def andThen {α : Type} (action : ShellM α) (last : ShellM Unit) : ShellM α := do
  let result ←
    try
      action
    catch jump =>
      last
      throw jump
  last
  return result

def keeping {α : Type} (descriptors : List Nat) (action : ShellM α) : ShellM α := do
  let before := (← get).process.descriptors
  action.andThen (modify fun shell =>
    let process := descriptors.foldl (fun process descriptor =>
      match before.lookup descriptor with
      | some channel => process.connect descriptor channel
      | none => process.disconnect descriptor) shell.process
    { shell with process := process })

def connectNew (descriptor : Nat) (channel : Channel) : ShellM Nat :=
  modifyGet fun shell =>
    let (index, process) := shell.process.addChannel channel
    (index, { shell with process := process.connect descriptor index })

def connectInput (descriptor : Nat) (content : Array UInt8) : ShellM Unit := do
  discard <| connectNew descriptor ⟨.input content 0, true, false⟩

def collectOutput (limit : Option Nat) : ShellM Nat :=
  connectNew 1 ⟨.output [] 0 limit, false, true⟩

def newNumber : ShellM Nat :=
  modifyGet fun shell =>
    let number := shell.process.issued + 1
    (number, { shell with process := { shell.process with issued := number } })

def isHarmless (signal : Nat) : Bool :=
  [0, 17, 18, 23, 28].contains signal

def receive (signal : Nat) : ShellM Unit := do
  let shell ← get
  if shell.ignored.contains signal then
    return
  match signal == 9, shell.traps.lookup signal with
  | false, some action =>
    if !action.isEmpty then
      modify fun shell =>
        let pending := (signal :: shell.pending.filter (· != signal)).mergeSort
        { shell with pending := pending }
  | _, _ =>
    let isAsking := shell.has 'i' && shell.self == shell.number
    if !isHarmless signal && !(isAsking && [3, 15].contains signal) then
      throw (.gone (.signaled signal))

/--
Write output of a built-in command. That it is lost is noticed at the end of the command, and that
nobody reads it is a signal.
-/
def printBytes (bytes : List UInt8) : ShellM Unit := do
  match ← process (Process.write 1 bytes) with
  | .ok () => return
  | .error error =>
    if error == Stream.brokenPipe then
      receive 13
    modify fun shell => { shell with lost := true }

def print (text : String) : ShellM Unit :=
  printBytes (Octets.toBytes text)

def receiveSent : ShellM Unit := do
  let shell ← get
  let (mine, others) := shell.sent.partition (·.1 == shell.self)
  set { shell with sent := others }
  for (_, signal) in mine do
    receive signal

def noticed (jobs : List Job) : List Job :=
  jobs.map fun job => if job.status.isSome then { job with noticed := true } else job

def newSlot (jobs : List Job) : Nat :=
  let isFree (slot : Nat) : Bool := jobs.all fun job => job.slot != slot || job.waited
  ((List.range' 1 (jobs.length + 1)).find? isFree).getD (jobs.length + 1)

def vacated (jobs : List Job) : List Job :=
  let slot := newSlot jobs
  jobs.filter (·.slot != slot)

def toOwnEnd (runText : String → ShellM Unit) (action : ShellM Unit) : ShellM ExitStatus := do
  let outcome (action : ShellM Unit) : ShellM (Except ExitStatus Nat) := do
    try
      action
      return .ok (← get).status
    catch
      | .exit status => return .ok status
      | .gone status => return .error status
      | .error => return .ok 2
      | .returned | .loop .. => return .ok (← get).status
  match ← outcome action with
  | .error status => return status
  | .ok status =>
    match (← get).traps.lookup 0 with
    | none => return .exited (status % 256)
    | some text =>
      modify fun shell =>
        { shell with
          traps := shell.traps.filter (·.1 != 0)
          status := status
          interrupted := some status
          command := none
          tracing := false }
      let last ← outcome do
        runText text
        setStatus status
      match last with
      | .error status => return status
      | .ok status => return .exited (status % 256)

def toEnd (runText : String → ShellM Unit) (runDeferred action : ShellM Unit) :
    ShellM ExitStatus := do
  let status ← toOwnEnd runText action
  runDeferred
  return status

/--
Run something in a shell of its own, which has a number. Nothing outlasts it but what others can
see: the tree, the channels and the signals that were sent, which are left to be received.
-/
def inSubshell (number : Nat) (runText : String → ShellM Unit)
    (runDeferred action : ShellM Unit) : ShellM ExitStatus := do
  let before ← get
  let jobs := noticed (vacated before.jobs)
  modify fun shell =>
    { shell with
      traps := shell.traps.filter (·.2.isEmpty)
      pending := []
      interrupted := none
      jobs := []
      deferred := []
      self := number
      ancestors := shell.self :: shell.ancestors }
  let status ← toEnd runText runDeferred action
  let after ← get
  let process :=
    { before.process with
      tree := after.process.tree
      channels := after.process.channels
      issued := after.process.issued }
  set { before with
    process := process, sent := after.sent, jobs := jobs, documents := after.documents }
  return status

end ShellM
end Shell
end Rehearsal
end Waybind
