import Waybind.Rehearsal.Shell.Builtin
import Waybind.Rehearsal.Shell.Expand
import Waybind.Rehearsal.Utility

/-!
This module contains how a shell runs commands. All of it goes by `fuel`, which bounds how deep
commands are nested and how often loops turn.
-/

namespace Waybind
namespace Rehearsal
namespace Shell

/--
Where a command stands. `tested` tells that something else depends on its status, and `last` that
its process has nothing to do behind it.
-/
structure Place where
  tested : Bool := false
  last : Bool := false

inductive Medium where
  | text
  | file
  | input
deriving DecidableEq

def checkStatus (tested : Bool) : ShellM Unit := do
  let shell ← get
  if !tested && shell.has 'e' && shell.status != 0 then
    throw (.exit shell.status)

def attempt (action : ShellM Unit) : ShellM (Option Bool) := do
  try
    action
    return none
  catch
    | .loop count again =>
      if 1 < count then
        throw (.loop (count - 1) again)
      else
        return some again
    | jump => throw jump

def asLoop (action : ShellM Unit) : ShellM Unit := do
  let loops := (← get).loops
  modify fun shell => { shell with loops := loops + 1 }
  action.andThen (modify fun shell => { shell with loops := loops })

def putBack (saved : List Saved) : ShellM Unit := do
  for entry in saved do
    match entry with
    | .entry name old => ShellM.setEntry name old
    | .options old => modify fun shell => { shell with options := old }

inductive Goal where
  | file (descriptor : Nat) (access : Access) (path : String)
  | duplicate (descriptor : Nat) (source : Option Nat)
  | document (descriptor number : Nat)

def Goal.descriptor : Goal → Nat
  | .file descriptor _ _ => descriptor
  | .duplicate descriptor _ => descriptor
  | .document descriptor _ => descriptor

def openFor (descriptor : Nat) (access : Access) (path : String) : ShellM Unit := do
  let access := if access == .create && !(← get).has 'C' then .replace else access
  match ← ShellM.process (Process.openPath path access) with
  | .ok channel =>
    modify fun shell => { shell with process := shell.process.connect descriptor channel }
  | .error error =>
    let (verb, missing) :=
      if access == .read then ("cannot open ", "No such file")
      else ("cannot create ", "Directory nonexistent")
    let cause :=
      match error with
      | .notFound | .notDirectory => missing
      | error => Process.reason error
    ShellM.abort (verb ++ path ++ ": " ++ cause)

def duplicate (descriptor : Nat) (source : Option Nat) : ShellM Unit := do
  let process := (← get).process
  match source with
  | none => modify fun shell => { shell with process := process.disconnect descriptor }
  | some source =>
    match source == descriptor, process.descriptors.lookup source with
    | true, _ => return
    | _, some channel =>
      modify fun shell => { shell with process := process.connect descriptor channel }
    | _, none => ShellM.abort (toString source ++ ": Bad file descriptor")

def maxCalls : Nat :=
  1000

def maxSources : Nat :=
  9000

/--
How many bytes a command can write to the next one in a pipeline. If it writes more, it is one that
never stops by itself, and is ended since the next one has.
-/
def maxPiped : Nat :=
  1000000

structure Turns where
  count : Nat := 0
  status : Nat := 0

def Turns.next (turns : Turns) (status : Nat) : Turns :=
  ⟨turns.count + 1, status⟩

def patience : Nat :=
  1000

def readOptions (fuel : Nat) (isScript : Bool) (args : List String) :
    ShellM (Bool × List String) := do
  match fuel, args with
  | fuel + 1, arg :: rest =>
    match arg.toList with
    | ['-'] | ['-', '-'] => return (isScript, rest)
    | sign :: letters =>
      if sign == '-' || sign == '+' then
        let rest ← Builtin.setLetters ['c', 'l'] (sign == '-') letters rest
        readOptions fuel (isScript || letters.contains 'c') rest
      else
        return (isScript, args)
    | [] => return (isScript, args)
  | _, args => return (isScript, args)

/--
The words of a command while it is found out what it is.

- `front` holds fields that stand before its name.
- `fields` holds its name and its arguments so far, and `words` what is not expanded.
- With `direct`, its name is not that of a function.
- `directories` says where a program is looked for, if not where it usually is.
-/
structure Invocation where
  front : List String := []
  fields : List String := []
  words : List Word
  direct : Bool := false
  directories : Option String := none

namespace Invocation

def function? (invocation : Invocation) (shell : Shell) : Option Command :=
  if invocation.direct then
    none
  else
    invocation.fields.head?.bind fun name => shell.functions.lookup name

def builtin? (invocation : Invocation) (shell : Shell) : Option String :=
  if (invocation.function? shell).isSome then none else invocation.fields.head?.filter isBuiltin

def isSpecial (invocation : Invocation) (shell : Shell) : Bool :=
  invocation.front.isEmpty && ((invocation.builtin? shell).map specialBuiltins.contains).getD false

def takesAssignments (invocation : Invocation) (shell : Shell) : Bool :=
  let commands := ["alias", "export", "local", "readonly"]
  ((invocation.builtin? shell).map commands.contains).getD false

end Invocation

def linesRead (before after : List Char) : String :=
  let count := before.length - after.length
  let taken := before.take count
  if taken.isEmpty || taken.getLast? == some '\n' then
    String.ofList taken
  else
    let rest := before.drop count
    String.ofList (taken ++ rest.takeWhile (· != '\n') ++ (rest.dropWhile (· != '\n')).take 1)

/--
How often more of a command is asked for while it is read. If the command is whole, or wrong before
the end of the source, nothing is asked for behind its last line.
-/
def linesAsked (isWhole : Bool) (before after : List Char) : Nat :=
  let taken := before.take (before.length - after.length)
  let stops := (isWhole || !after.isEmpty) && taken.getLast? == some '\n'
  taken.count '\n' - (if stops then 1 else 0)

def failureStatus (error : HostError) : Nat :=
  match error with
  | .notFound | .notDirectory | .nameTooLong => 127
  | error => if error == Tree.tooManyLinks then 127 else 126

def readScript (path : String) : ShellM (List Char) := do
  let refuse (cause : String) : ShellM (List Char) :=
    ShellM.abort ("cannot open " ++ path ++ ": " ++ cause)
  match ← ShellM.process (Process.openPath path .read) with
  | .error .notFound | .error .notDirectory => refuse "No such file"
  | .error error => refuse (Process.reason error)
  | .ok channel =>
    let content ← ShellM.process (Process.readRest channel)
    return (Octets.ofBytes content).toList

mutual

def inSubshell (fuel : Nat) (action : ShellM Unit) : ShellM ExitStatus := do
  match fuel with
  | 0 => return .exited 0
  | fuel + 1 =>
    runDeferred fuel
    let number ← ShellM.newNumber
    ShellM.inSubshell number (fun text => runText fuel text) (runDeferred fuel) action

def runDeferred (fuel : Nat) : ShellM Unit := do
  match fuel, (← get).deferred with
  | 0, _ | _, [] => return
  | fuel + 1, (number, started, command) :: rest =>
    let before ← get
    let share (process current : Process) : Process :=
      { process with
        tree := current.tree, channels := current.channels, issued := current.issued }
    set { started with
      process := share started.process before.process
      sent := []
      ignored := started.ignored ++ [2, 3] }
    let status ← ShellM.inSubshell number (fun text => runText fuel text) (runDeferred fuel) do
      discard <| ShellM.connectNew 0 ⟨.device .null, true, false⟩
      match command with
      | .redirected line command redirections =>
        run fuel { last := true } (.subshell line command redirections)
      | .pipeline commands =>
        let statuses ← runPipeline fuel false none commands
        throw (.gone (statuses.getLast?.getD (.exited 0)))
      | command => run fuel { last := true } command
    let after ← get
    set { before with
      process := share before.process after.process
      deferred := rest
      sent := before.sent ++ after.sent
      jobs := before.jobs.map fun (job : Job) =>
        if job.number == number then { job with status := some status } else job }
    ShellM.receiveSent
    runDeferred fuel

def output (fuel : Nat) (command : Command) : ShellM String := do
  match fuel, command with
  | 0, _ | _, .skip => return ""
  | fuel + 1, command =>
    runDeferred fuel
    let index := (← get).process.channels.size
    let status ← inSubshell fuel do
      discard <| ShellM.collectOutput none
      run fuel { last := true } command
    ShellM.receiveSent
    let status ← Builtin.conclude false status
    modify fun shell => { shell with outputStatus := status }
    let bytes := ((← get).process.collected index).toList
    let bytes := (bytes.reverse.dropWhile (· == 0x0A)).reverse
    return Octets.ofBytes (bytes.filter (· != 0))

def expand (fuel : Nat) (manner : Manner) (word : Word) : ShellM (List Segment) :=
  match fuel with
  | 0 => return []
  | fuel + 1 => expandWith (fun command => output fuel command) fuel manner true word

def expandWhole (fuel : Nat) (manner : Manner) (word : Word) : ShellM String := do
  match fuel with
  | 0 => return ""
  | fuel + 1 => return Segment.text (← expand fuel manner word)

def expandWords (fuel : Nat) (assigning : Bool) (words : List Word) : ShellM (List String) := do
  match fuel, words with
  | 0, _ | _, [] => return []
  | fuel + 1, word :: words =>
    let assignment := if assigning then Word.assignment? word else none
    let fields ←
      match assignment, Word.literal? word with
      | some (name, value), _ => do
        let text ← expandWhole fuel .value value
        pure [name ++ "=" ++ text]
      | none, some text => pure [text]
      | none, none => fieldsOf (← expand fuel .words word)
    return fields ++ (← expandWords fuel assigning words)

def expandGoals (fuel : Nat) (redirections : List Redirection) : ShellM (List Goal) := do
  match fuel, redirections with
  | 0, _ | _, [] => return []
  | fuel + 1, redirection :: rest =>
    let goal ←
      match redirection with
      | .file descriptor access word => do
        pure (Goal.file descriptor access (← expandWhole fuel .single word))
      | .document descriptor number => pure (Goal.document descriptor number)
      | .duplicate descriptor word => do
        let text ← expandWhole fuel .single word
        match text.toList with
        | ['-'] => pure (Goal.duplicate descriptor none)
        | [c] =>
          if c.isDigit then
            pure (Goal.duplicate descriptor (some (c.toNat - '0'.toNat)))
          else
            ShellM.abortAt (← get).readTo "Syntax error: Bad fd number"
        | _ => ShellM.abortAt (← get).readTo "Syntax error: Bad fd number"
    return goal :: (← expandGoals fuel rest)

def connectAll (fuel : Nat) (goals : List Goal) : ShellM Unit := do
  match fuel, goals with
  | 0, _ | _, [] => return
  | fuel + 1, goal :: goals =>
    match goal with
    | .file descriptor access path => openFor descriptor access path
    | .duplicate descriptor source => duplicate descriptor source
    | .document descriptor number =>
      let document := (← get).documents.getD number []
      let text ← expandWhole fuel {} document
      ShellM.connectInput descriptor (Octets.toBytes text).toArray
    connectAll fuel goals

def tryConnectAll (fuel : Nat) (goals : List Goal) : ShellM Bool := do
  match fuel with
  | 0 => return true
  | fuel + 1 =>
    try
      connectAll fuel goals
      return true
    catch
      | .error => return false
      | jump => throw jump

def run (fuel : Nat) (place : Place) (command : Command) : ShellM Unit := do
  match fuel with
  | 0 => return
  | fuel + 1 =>
    if (← get).has 'n' then
      return
    match command with
    | .skip => return
    | .simple line assignments words redirections =>
      ShellM.setLine line
      modify fun shell => { shell with outputStatus := 0 }
      runSimple fuel place assignments words redirections
      runPending fuel
      checkStatus place.tested
    | .sequence first second =>
      run fuel { tested := place.tested } first
      run fuel place second
    | .background line command =>
      ShellM.setLine line
      let number ← ShellM.newNumber
      let pipes :=
        match command with
        | .pipeline commands => commands.length - 1
        | _ => 0
      modify fun shell =>
        let job := { slot := ShellM.newSlot shell.jobs, number := number, pipes := pipes }
        { shell with
          jobs := job :: ShellM.vacated shell.jobs
          deferred := shell.deferred ++ [(number, { shell with deferred := [] }, command)]
          background := some number
          status := 0 }
      runPending fuel
    | .both first second =>
      run fuel { tested := true } first
      if (← get).status == 0 then
        run fuel place second
    | .either first second =>
      run fuel { tested := true } first
      if (← get).status != 0 then
        run fuel place second
    | .negated command =>
      run fuel { tested := true } command
      ShellM.setStatus (if (← get).status == 0 then 1 else 0)
      runPending fuel
    | .pipeline commands =>
      let statuses ← runPipeline fuel place.tested none commands
      for status in statuses do
        ShellM.setStatus (← Builtin.conclude false status)
      ShellM.receiveSent
      runPending fuel
      checkStatus place.tested
    | .subshell line command redirections =>
      ShellM.setLine line
      let goals ← expandGoals fuel redirections
      let action : ShellM Unit := do
        connectAll fuel goals
        run fuel { place with last := true } command
      if place.last && !(← get).isTrapping then
        action
        throw (.exit (← get).status)
      let status ← inSubshell fuel action
      ShellM.receiveSent
      ShellM.setStatus (← Builtin.conclude false status)
      runPending fuel
      checkStatus place.tested
    | .redirected line command redirections =>
      ShellM.setLine line
      let goals ← expandGoals fuel redirections
      let connected ← ShellM.keeping (goals.map Goal.descriptor) do
        if ← tryConnectAll fuel goals then
          run fuel { tested := place.tested } command
          return true
        else
          ShellM.setStatus 2
          return false
      runPending fuel
      unless connected do
        checkStatus place.tested
    | .branch condition whenTrue whenFalse =>
      run fuel { tested := true } condition
      if (← get).status == 0 then
        run fuel place whenTrue
      else
        runPart fuel place whenFalse
    | .loop expects condition body =>
      asLoop (runLoop fuel place.tested expects condition body {})
      runPending fuel
    | .each line name words body =>
      ShellM.setLine line
      let values ←
        match words with
        | none => pure (← get).args
        | some words => expandWords fuel false words
      if values.isEmpty then
        ShellM.setStatus 0
      asLoop (runEach fuel place.tested name values body)
      runPending fuel
    | .choose line word cases =>
      ShellM.setLine line
      let text ← expandWhole fuel .single word
      runCases fuel place text.toList cases
      runPending fuel
    | .function _ name body =>
      modify fun shell =>
        { shell with
          functions := (name, body) :: shell.functions.filter (·.1 != name)
          known := shell.known.filter (·.1 != name)
          status := 0 }

def runPart (fuel : Nat) (place : Place) (command : Command) : ShellM Unit :=
  match fuel, command with
  | 0, _ => return
  | _ + 1, .skip => ShellM.setStatus 0
  | fuel + 1, command => run fuel place command

def runPipeline (fuel : Nat) (tested : Bool) (input : Option (Array UInt8))
    (commands : List Command) : ShellM (List ExitStatus) := do
  match fuel, commands with
  | 0, _ | _, [] => return []
  | fuel + 1, command :: rest =>
    runDeferred fuel
    let index := (← get).process.channels.size
    let status ← inSubshell fuel do
      if !rest.isEmpty then
        discard <| ShellM.collectOutput (some maxPiped)
      match input with
      | some input => ShellM.connectInput 0 input
      | none => pure ()
      run fuel ⟨tested, true⟩ command
    return status :: (← runPipeline fuel tested (some ((← get).process.collected index)) rest)

def runLoop (fuel : Nat) (tested : Bool) (expects : Bool) (condition body : Command)
    (turns : Turns) : ShellM Unit := do
  match fuel with
  | 0 => return
  | fuel + 1 =>
    if turns.count % patience == patience - 1 then
      runDeferred fuel
    match ← attempt (run fuel { tested := true } condition) with
    | some true => runLoop fuel tested expects condition body (turns.next turns.status)
    | some false => ShellM.setStatus turns.status
    | none =>
      if ((← get).status == 0) != expects then
        ShellM.setStatus turns.status
      else
        match ← attempt (run fuel { tested := tested } body) with
        | some false => return
        | _ => runLoop fuel tested expects condition body (turns.next (← get).status)

def runEach (fuel : Nat) (tested : Bool) (name : String) (values : List String)
    (body : Command) : ShellM Unit := do
  match fuel, values with
  | 0, _ | _, [] => return
  | fuel + 1, value :: values =>
    ShellM.assign name value
    match ← attempt (run fuel { tested := tested } body) with
    | some false => return
    | _ => runEach fuel tested name values body

def runCases (fuel : Nat) (place : Place) (text : List Char)
    (cases : List (List Word × Command)) : ShellM Unit := do
  match fuel, cases with
  | 0, _ => return
  | _, [] => ShellM.setStatus 0
  | fuel + 1, (patterns, body) :: cases =>
    if ← matchesAny fuel text patterns then
      runPart fuel place body
    else
      runCases fuel place text cases

def matchesAny (fuel : Nat) (text : List Char) (patterns : List Word) : ShellM Bool := do
  match fuel, patterns with
  | 0, _ | _, [] => return false
  | fuel + 1, pattern :: patterns =>
    let segments ← expand fuel .single pattern
    if (Segment.pattern segments).matchesText text then
      return true
    else
      matchesAny fuel text patterns

def runPending (fuel : Nat) : ShellM Unit := do
  match fuel, (← get).pending with
  | 0, _ | _, [] => return
  | fuel + 1, signal :: pending =>
    let before ← get
    let status := before.interrupted.getD before.status
    set { before with pending := pending, interrupted := some status }
    match before.traps.lookup signal with
    | none => pure ()
    | some action =>
      runText fuel action
      ShellM.setStatus status
    modify fun shell => { shell with interrupted := before.interrupted }
    runPending fuel

def moreFields (fuel : Nat) (invocation : Invocation) : ShellM (Option Invocation) := do
  match fuel, invocation.words with
  | 0, _ | _, [] => return none
  | fuel + 1, word :: words =>
    let fields ← expandWords fuel false [word]
    let extended := { invocation with fields := invocation.fields ++ fields, words := words }
    if fields.isEmpty then moreFields fuel extended else return some extended

def identify (fuel : Nat) (invocation : Invocation) : ShellM Invocation := do
  match fuel with
  | 0 => return invocation
  | fuel + 1 =>
    if invocation.builtin? (← get) == some "command" then
      match ← skipOptions fuel invocation 1 none with
      | (extended, some (count, directories)) =>
        let skipped := { extended with
          front := extended.front ++ extended.fields.take count
          fields := extended.fields.drop count
          direct := true
          directories := directories }
        identify fuel skipped
      | (extended, none) => return extended
    else
      return invocation

def skipOptions (fuel : Nat) (invocation : Invocation) (count : Nat)
    (directories : Option String) :
    ShellM (Invocation × Option (Nat × Option String)) := do
  match fuel with
  | 0 => return (invocation, none)
  | fuel + 1 =>
    let ready ←
      if count < invocation.fields.length then pure (some invocation)
      else moreFields fuel invocation
    match ready with
    | none => return ({ invocation with words := [] }, none)
    | some invocation =>
      match (invocation.fields.getD count "").toList with
      | ['-', '-'] =>
        let ready ←
          if count + 1 < invocation.fields.length then pure (some invocation)
          else moreFields fuel invocation
        match ready with
        | none => return ({ invocation with words := [] }, none)
        | some invocation => return (invocation, some (count + 1, directories))
      | '-' :: c :: cs =>
        if (c :: cs).all (· == 'p') then
          skipOptions fuel invocation (count + 1) (some defaultPath)
        else
          return (invocation, none)
      | _ => return (invocation, some (count, directories))

def runSimple (fuel : Nat) (place : Place) (assignments : List (String × Word))
    (words : List Word) (redirections : List Redirection) : ShellM Unit := do
  match fuel with
  | 0 => return
  | fuel + 1 =>
    let started ← moreFields fuel { words := words }
    let invocation ← identify fuel (started.getD { words := [] })
    let shell ← get
    let rest ← expandWords fuel (invocation.takesAssignments shell) invocation.words
    let invocation := { invocation with fields := invocation.fields ++ rest, words := [] }
    let builtin := invocation.builtin? shell
    let isSpecial := invocation.isSpecial shell
    let errors := shell.process.descriptors.lookup 2
    let goals ← expandGoals fuel redirections
    let kept := if builtin == some "exec" then [] else goals.map Goal.descriptor
    ShellM.keeping kept do
      if ← tryConnectAll fuel goals then
        let temporary := !invocation.fields.isEmpty && !isSpecial
        let exports := temporary || (builtin == some "exec" && 1 < invocation.fields.length)
        let before ← get
        let restore : ShellM Unit := do
          putBack ((← get).locals.getD [])
          putBack (assignments.map fun (name, _) => .entry name (before.scope.lookup name))
          modify fun shell => { shell with locals := before.locals }
        let action : ShellM Unit := do
          let assigned ← assignAll fuel exports assignments
          if (← get).has 'x' && !(← get).tracing then
            trace fuel errors (assigned ++ invocation.front ++ invocation.fields)
          invoke fuel place isSpecial invocation
        if temporary then
          set { before with locals := some [] }
          action.andThen restore
        else
          action
      else if isSpecial then
        throw .error
      else
        ShellM.setStatus 2

def assignAll (fuel : Nat) (exports : Bool) (assignments : List (String × Word)) :
    ShellM (List String) := do
  match fuel, assignments with
  | 0, _ | _, [] => return []
  | fuel + 1, (name, word) :: rest =>
    let value ← expandWhole fuel .value word
    ShellM.assign name value
    if exports then
      ShellM.mark name fun entry => { entry with exported := true }
    return (name ++ "=" ++ value) :: (← assignAll fuel exports rest)

def shownText (fuel : Nat) (name : String) : ShellM String := do
  match fuel with
  | 0 => return ""
  | fuel + 1 =>
    let shell ← get
    let value := (shell.namedValue? name).getD ""
    match Parse.template value shell.documents with
    | .error _ => return value
    | .ok (word, source) =>
      set { shell with tracing := true, documents := source.documents }
      let text ←
        try
          expandWhole fuel {} word
        catch
          | .error => pure value
          | jump => throw jump
      modify fun shell => { shell with tracing := false }
      return text

def trace (fuel : Nat) (errors : Option Nat) (texts : List String) : ShellM Unit := do
  match fuel with
  | 0 => return
  | fuel + 1 =>
    let text := (← shownText fuel "PS4") ++ " ".intercalate texts ++ "\n"
    match errors with
    | none => return
    | some channel => discard <| ShellM.process (Process.writeTo channel (Octets.toBytes text))

def invoke (fuel : Nat) (place : Place) (isSpecial : Bool) (invocation : Invocation) :
    ShellM Unit := do
  match fuel, invocation.fields with
  | 0, _ => return
  | _ + 1, [] => ShellM.setStatus (← get).outputStatus
  | fuel + 1, name :: args =>
    let shell ← get
    match invocation.function? shell, invocation.builtin? shell with
    | some body, _ => call fuel place.tested body args
    | none, some _ =>
      try
        builtin fuel place.tested name args
      catch
        | .error => if isSpecial then throw .error else ShellM.setStatus 2
        | jump => throw jump
    | none, none => external fuel place.last invocation.directories name args

def call (fuel : Nat) (tested : Bool) (body : Command) (args : List String) :
    ShellM Unit := do
  match fuel with
  | 0 => return
  | fuel + 1 =>
    let before ← get
    if maxCalls ≤ before.calls then
      ShellM.abort s!"Maximum function recursion depth ({maxCalls}) reached"
    set { before with
      args := args, loops := 0, calls := before.calls + 1, locals := some [], position := 1
      offset := none }
    let restore : ShellM Unit := do
      putBack ((← get).locals.getD [])
      modify fun shell =>
        { shell with
          args := before.args, loops := before.loops, calls := before.calls
          locals := before.locals, position := before.position, offset := before.offset }
    let action : ShellM Unit := do
      try
        run fuel { tested := tested } body
      catch
        | .returned => return
        | jump => throw jump
    action.andThen restore

def builtin (fuel : Nat) (tested : Bool) (name : String) (args : List String) :
    ShellM Unit := do
  match fuel with
  | 0 => return
  | fuel + 1 =>
    let before ← get
    set { before with command := some name, lost := false }
    let action : ShellM Unit := do
      match name, args with
      | "eval", args =>
        let ran ← runSource fuel tested .text { rest := (" ".intercalate args).toList }
        if !ran then
          ShellM.setStatus 0
      | ".", args =>
        match ← Builtin.operands args with
        | path :: _ => source fuel path
        | [] => ShellM.setStatus 0
      | "exec", name :: args => replace fuel name args
      | "wait", args =>
        runDeferred fuel
        ShellM.setStatus (← Builtin.wait args)
      | name, args => ShellM.setStatus (← Builtin.run name args)
      if (← get).lost then
        ShellM.report (name ++ ": I/O error")
        modify fun shell => { shell with status := shell.status ||| 1 }
    action.andThen (modify fun shell =>
      { shell with command := before.command, lost := before.lost })

def source (fuel : Nat) (name : String) : ShellM Unit := do
  match fuel with
  | 0 => return
  | fuel + 1 =>
    let shell ← get
    let isFile (path : String) : Bool :=
      match shell.process.tree.find shell.process.directory (Process.pathOf path) with
      | .ok (_, .file _) | .ok (_, .program _) => true
      | _ => false
    let path ←
      if name.toList.contains '/' then
        pure name
      else
        match (candidates ((shell.namedValue? "PATH").getD "") name).find? isFile with
        | some path => pure path
        | none => ShellM.abort (name ++ ": not found")
    let content ← readScript path
    modify fun shell => { shell with command := some path }
    try
      let ran ← runSource fuel false .file { rest := content }
      if !ran then
        ShellM.setStatus 0
    catch
      | .returned => return
      | jump => throw jump

def launch (fuel : Nat) (inPlace : Bool) (program name : String) (args : List String) :
    ShellM ExitStatus := do
  match fuel with
  | 0 => return .exited 0
  | fuel + 1 =>
    runDeferred fuel
    let number ← if inPlace then pure (← get).self else ShellM.newNumber
    let shell ← get
    let ancestors := if inPlace then shell.ancestors else shell.self :: shell.ancestors
    let environment := shell.scope.filterMap fun (name, entry) =>
      if entry.exported then entry.value.map (name, ·) else none
    let before := shell.process
    set { shell with
      process := { before with environment := environment }, jobs := ShellM.vacated shell.jobs }
    let ignored := shell.ignored ++ (shell.traps.filter (·.2.isEmpty)).map (·.1)
    let (status, sent) ←
      if program == "sh" then
        ShellM.process (interpret fuel number ancestors ignored name args)
      else
        ShellM.process do
          let status ← Utility.run program name args
          return (status, [])
    modify fun shell =>
      let process := shell.process
      { shell with
        process := { before with
          tree := process.tree, channels := process.channels, issued := process.issued }
        sent := shell.sent ++ sent
        jobs := ShellM.noticed shell.jobs }
    return status

def external (fuel : Nat) (isLast : Bool) (directories : Option String) (name : String)
    (args : List String) : ShellM Unit := do
  match fuel with
  | 0 => return
  | fuel + 1 =>
    match locate (← get) directories name with
    | .ok (path, program) =>
      if directories.isNone && !name.toList.contains '/' then
        remember name path
      let inPlace := isLast && !(← get).isTrapping
      let status ← launch fuel inPlace program name args
      if inPlace then
        throw (.gone status)
      ShellM.receiveSent
      ShellM.setStatus (← Builtin.conclude false status)
    | .error error =>
      ShellM.report (name ++ ": " ++ Builtin.failureText error)
      ShellM.setStatus (if name.toList.contains '/' then failureStatus error else 127)

def replace (fuel : Nat) (name : String) (args : List String) : ShellM Unit := do
  match fuel with
  | 0 => return
  | fuel + 1 =>
    match locate (← get) none name with
    | .ok (_, program) =>
      let status ← launch fuel true program name args
      throw (.gone status)
    | .error error =>
      ShellM.report (name ++ ": " ++ Builtin.failureText error)
      throw (.exit (failureStatus error))

/--
Run a source to its end. The result is whether there was anything to run. The lines of a file are
shown while they are read, if that is wanted, and those of the input are asked for.
-/
def runSource (fuel : Nat) (tested : Bool) (medium : Medium) (source : Source) :
    ShellM Bool := do
  match fuel with
  | 0 => return false
  | fuel + 1 =>
    let before ← get
    if maxSources ≤ before.sources then
      throw (.gone (.signaled 11))
    set { before with sources := before.sources + 1 }
    let result ← (runLines fuel tested medium false source).andThen
      (modify fun shell => { shell with readTo := before.readTo, sources := before.sources })
    return result

def runLines (fuel : Nat) (tested : Bool) (medium : Medium) (ran : Bool) (source : Source) :
    ShellM Bool := do
  match fuel with
  | 0 => return ran
  | fuel + 1 =>
    let shell ← get
    let asks := medium == .input && shell.has 'i'
    if asks then
      ShellM.printError (← shownText fuel "PS1")
    let showLines (isWhole : Bool) (rest : List Char) : ShellM Unit := do
      if asks then
        for _ in List.range (linesAsked isWhole source.rest rest) do
          ShellM.printError (← shownText fuel "PS2")
      if medium != .text && shell.has 'v' then
        ShellM.printError (linesRead source.rest rest)
    let source := { source with aliases := shell.aliases, documents := shell.documents }
    match Parse.commandLine? source with
    | .error mistake =>
      showLines false mistake.rest
      ShellM.abortAt mistake.line mistake.message
    | .ok (command, after) =>
      showLines true after.rest
      modify fun shell => { shell with documents := after.documents, readTo := after.line }
      match command with
      | none =>
        if asks then
          ShellM.printError "\n"
        return ran
      | some .skip => runLines fuel tested medium ran after
      | some command =>
        run fuel { tested := tested } command
        runLines fuel tested medium true after

def runText (fuel : Nat) (text : String) : ShellM Unit := do
  match fuel with
  | 0 => return
  | fuel + 1 => discard <| runSource fuel false .text { rest := text.toList }

/--
Run what a shell is called for: a script among its arguments, one in a file, or one that it reads. A
shell that asks goes on after an error, without what it has been given already.
-/
def runScript (fuel : Nat) (args : List String) : ShellM Unit := do
  match fuel with
  | 0 => return
  | fuel + 1 =>
    let (isScript, args) ← readOptions (args.length + 1) false args
    if isScript && args.isEmpty then
      ShellM.abort "-c requires an argument"
    let readInput : ShellM (List Char) := do
      let content ← ShellM.process (Process.readAll 0)
      return (Octets.ofBytes (content.toOption.getD [])).toList
    let runAll (medium : Medium) (script : List Char) (left : ShellM (List Char)) :
        ShellM Unit := do
      if (← get).has 'i' then
        Builtin.setOption true 'm'
      Builtin.checkMonitor
      try
        discard <| runSource fuel false medium { rest := script }
      catch
        | .error =>
          if !(← get).has 'i' then
            throw .error
          ShellM.setStatus 2
          discard <| runSource fuel false .input { rest := ← left }
        | jump => throw jump
    if isScript then
      let script := args.headD ""
      let args := args.drop 1
      modify fun shell => { shell with name := args.headD shell.name, args := args.drop 1 }
      runAll .text script.toList readInput
    else
      match (← get).has 's', args with
      | false, path :: args =>
        let content ← readScript path
        modify fun shell => { shell with name := path, args := args }
        runAll .input content (return [])
      | _, args =>
        Builtin.setOption true 's'
        modify fun shell => { shell with args := args }
        runAll .input (← readInput) (return [])

def interpret (fuel number : Nat) (ancestors ignored : List Nat) (name : String)
    (args : List String) : ProcessM (ExitStatus × List (Nat × Nat)) := do
  match fuel with
  | 0 => return (.exited 0, [])
  | fuel + 1 =>
    let before ← get
    let given := before.environment.filter fun (name, _) => isName name
    let fixed := ["IFS", "OPTIND", "PPID", "PWD"]
    let kept := given.filter fun (name, _) => !fixed.contains name
    let physical := Builtin.locationPath before.directory
    let directory :=
      match given.lookup "PWD" with
      | some path =>
        if path.toList.head? == some '/' &&
            (before.tree.find [] (Process.pathOf path)).toOption.map (·.1) == some before.directory
        then path
        else physical
      | none => physical
    let isGiven (name : String) := (given.lookup name).isSome
    let fixedEntries : List (String × Variable) := [
      ("IFS", { value := some " \t\n", exported := isGiven "IFS" }),
      ("OPTIND", { value := some "1", exported := isGiven "OPTIND" }),
      ("PPID", { value := some (toString (ancestors.headD 999)), exported := isGiven "PPID" }),
      ("PWD", { value := some directory, exported := true })]
    let defaults : List (String × Variable) := [
      ("PATH", { value := some defaultPath }), ("PS1", { value := some "# " }),
      ("PS2", { value := some "> " }), ("PS4", { value := some "+ " })]
    let scope := kept.map (fun (name, value) =>
        (name, ({ value := some value, exported := true } : Variable)))
      ++ fixedEntries ++ defaults.filter (fun (name, _) => !isGiven name)
    let shell : Shell := {
      process := before
      name := name
      number := number
      self := number
      ancestors := ancestors
      ignored := ignored
      directory := directory
      scope := scope }
    let action : ShellM ExitStatus := ShellM.toEnd (fun text => runText fuel text)
      (runDeferred fuel) (runScript fuel args)
    let (result, shell) := action.run.run shell
    set { before with
      tree := shell.process.tree
      channels := shell.process.channels
      issued := shell.process.issued }
    match result with
    | .ok status => return (status, shell.sent)
    | .error _ => return (.exited 2, shell.sent)

end

def maxDepth : Nat :=
  10000000

def start (name : String) (args : List String) : ProcessM ExitStatus := do
  let number := (← get).issued + 1
  modify fun process => { process with issued := number }
  return (← interpret maxDepth number [] [] name args).1

end Shell
end Rehearsal
end Waybind
