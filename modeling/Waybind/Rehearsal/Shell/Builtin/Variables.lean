import Waybind.Rehearsal.Shell.Builtin.Basic

/-!
This module contains the built-in commands that change variables, options and arguments.
-/

namespace Waybind
namespace Rehearsal
namespace Shell
namespace Builtin

def nameAndValue (arg : String) : String × Option String :=
  let name := arg.toList.takeWhile (· != '=')
  match arg.toList.drop name.length with
  | _ :: value => (String.ofList name, some (String.ofList value))
  | [] => (arg, none)

def listVariables (front : String) (wanted : Variable → Bool) : ShellM Unit := do
  let entries := (← get).scope.filter (wanted ·.2)
  let sorted := entries.mergeSort fun a b => decide (a.1 ≤ b.1)
  ShellM.print (String.join (sorted.map fun (name, entry) =>
    let value := (entry.value.map fun value => "=" ++ quoteText value).getD ""
    front ++ name ++ value ++ "\n"))

def markAll (command : String) (isMarked : Variable → Bool) (update : Variable → Variable)
    (args : List String) : ShellM Nat := do
  let isList := (args.head?.map (·.startsWith "-p")).getD false
  let names ← if isList then pure [] else operands args
  if names.isEmpty then
    listVariables (command ++ " ") isMarked
    return 0
  for arg in names do
    let (name, value) := nameAndValue arg
    match value with
    | some value => ShellM.assignNamed name value
    | none =>
      if ((← get).scope.lookup name).isNone then
        discard <| ShellM.nameOf name
    ShellM.mark name update
  return 0

def exportAll (args : List String) : ShellM Nat :=
  markAll "export" (·.exported) (fun entry => { entry with exported := true }) args

def makeReadOnly (args : List String) : ShellM Nat :=
  markAll "readonly" (·.readOnly) (fun entry => { entry with readOnly := true }) args

def makeLocal (args : List String) : ShellM Nat := do
  if (← get).locals.isNone then
    ShellM.abort "not in a function"
  for arg in args do
    let (name, value) := nameAndValue arg
    let save (saved : Saved) : ShellM Unit :=
      modify fun shell => { shell with locals := shell.locals.map (saved :: ·) }
    if arg == "-" then
      save (.options (← get).options)
    else
      let old := (← get).scope.lookup name
      match value with
      | some value =>
        save (.entry name old)
        ShellM.assign name value
      | none =>
        if old.isNone then
          discard <| ShellM.nameOf name
        save (.entry name old)
  return 0

def unsetAll (args : List String) : ShellM Nat := do
  let (letters, names) ← options ['v', 'f'] args
  for name in names do
    if letters.getLast? == some 'f' then
      modify fun shell => { shell with functions := shell.functions.filter (·.1 != name) }
    else
      ShellM.unset name
  return 0

def setArguments (args : List String) : ShellM Unit :=
  modify fun shell => { shell with args := args, position := 1, offset := none }

def shift (args : List String) : ShellM Nat := do
  let count ←
    match args with
    | [] => pure 1
    | arg :: _ => ShellM.count arg
  let shell ← get
  if shell.args.length < count then
    ShellM.abort "can't shift that many"
  setArguments (shell.args.drop count)
  return 0

def setOption (on : Bool) (letter : Char) : ShellM Unit :=
  modify fun shell =>
    let others := shell.options.filter fun other =>
      other != letter && !(on && [letter, other].all ['V', 'E'].contains)
    { shell with options := if on then letter :: others else others }

def setLettered (on : Bool) (letter : Char) : ShellM Unit := do
  if letter < ' ' || !(optionNames.lookup letter).isSome then
    ShellM.abort ("Illegal option -" ++ String.singleton letter)
  setOption on letter

def setNamed (on : Bool) (name : String) : ShellM Unit := do
  match optionNames.find? (·.2 == name) with
  | some (letter, _) => setOption on letter
  | none => ShellM.abort ("Illegal option -o " ++ name)

def showOptions (toBeRead : Bool) : ShellM Unit := do
  let shell ← get
  if toBeRead then
    ShellM.print "Current option settings\n"
  for (letter, name) in optionNames do
    let isSet := shell.has letter
    if toBeRead then
      let blanks := String.ofList (List.replicate (16 - name.length) ' ')
      ShellM.print (name ++ blanks ++ (if isSet then "on" else "off") ++ "\n")
    else
      ShellM.print ("set " ++ (if isSet then "-o " else "+o ") ++ name ++ "\n")

def setLetters (ignored : List Char) (on : Bool) (letters : List Char) (args : List String) :
    ShellM (List String) := do
  match letters, args with
  | [], args => return args
  | 'o' :: letters, name :: args =>
    setNamed on name
    setLetters ignored on letters args
  | 'o' :: letters, [] =>
    showOptions on
    setLetters ignored on letters []
  | letter :: letters, args =>
    if !ignored.contains letter then
      setLettered on letter
    setLetters ignored on letters args

def checkMonitor : ShellM Unit := do
  if (← get).has 'm' then
    ShellM.report "can't access tty; job control turned off"
    setOption false 'm'

def setAll (fuel : Nat) (args : List String) : ShellM Unit := do
  match fuel, args with
  | fuel + 1, arg :: rest =>
    match arg.toList with
    | ['-', '-'] => setArguments rest
    | ['-'] =>
      setOption false 'x'
      setOption false 'v'
      if !rest.isEmpty then
        setArguments rest
    | '-' :: letters => setAll fuel (← setLetters [] true letters rest)
    | '+' :: letters => setAll fuel (← setLetters [] false letters rest)
    | _ => setArguments args
  | _, _ => return

def configure (args : List String) : ShellM Nat := do
  if args.isEmpty then
    listVariables "" (·.value.isSome)
  else
    setAll (args.length + 1) args
    checkMonitor
  return 0

structure Taken where
  letter : String
  value : Option String
  position : Nat
  offset : Option Nat
  complaint : String := ""
  done : Bool := false

def optionLetters (cs : List Char) : List (Char × Bool) :=
  match cs with
  | [] => []
  | c :: ':' :: cs => (c, true) :: optionLetters cs
  | c :: cs => (c, false) :: optionLetters cs

def takeLetter (letters : List Char) (args : List String) (position : Nat) (arg : String)
    (cs : List Char) : Taken :=
  let quiet := letters.head? == some ':'
  let offsetOf (cs : List Char) : Option Nat := some (arg.length - cs.length)
  match cs with
  | [] => ⟨"?", none, position, none, "", true⟩
  | c :: cs =>
    let text := String.singleton c
    match (optionLetters (if quiet then letters.drop 1 else letters)).lookup c with
    | none =>
      if quiet then
        { letter := "?", value := some text, position := position, offset := offsetOf cs }
      else
        { letter := "?", value := none, position := position, offset := offsetOf cs
          complaint := "Illegal option -" ++ text ++ "\n" }
    | some false =>
      { letter := text, value := some "", position := position, offset := offsetOf cs }
    | some true =>
      if !cs.isEmpty then
        { letter := text, value := some (String.ofList cs), position := position, offset := none }
      else
        match args[position - 1]? with
        | some value =>
          { letter := text, value := some value, position := position + 1, offset := none }
        | none =>
          if quiet then
            { letter := ":", value := some text, position := position, offset := none }
          else
            { letter := "?", value := none, position := position, offset := none
              complaint := "No arg for -" ++ text ++ " option\n" }

def takeOption (letters : List Char) (args : List String) (position : Nat) (offset : Option Nat) :
    Taken :=
  let current? := if 1 < position then args[position - 2]? else none
  let left : List Char :=
    match current?, offset with
    | some arg, some offset => arg.toList.drop offset
    | _, _ => []
  match left, current? with
  | _ :: _, some arg => takeLetter letters args position arg left
  | _, _ =>
    let done (position : Nat) : Taken := ⟨"?", none, position, none, "", true⟩
    match args[position - 1]? with
    | none => done position
    | some arg =>
      match arg.toList with
      | ['-', '-'] => done (position + 1)
      | '-' :: c :: cs => takeLetter letters args (position + 1) arg (c :: cs)
      | _ => done position

def getopts (args : List String) : ShellM Nat := do
  match ← operands args with
  | letters :: name :: rest =>
    let shell ← get
    let args := if rest.isEmpty then shell.args else rest
    let restarts := args.length + 1 < shell.position
    let taken :=
      if restarts then takeOption letters.toList args 1 none
      else takeOption letters.toList args shell.position shell.offset
    ShellM.printError taken.complaint
    if !taken.done then
      match taken.value with
      | some value => ShellM.assign "OPTARG" value
      | none => ShellM.unset "OPTARG"
    ShellM.assign "OPTIND" (toString taken.position)
    ShellM.assignNamed name taken.letter
    modify fun shell =>
      { shell with position := taken.position, offset := taken.offset }
    return if taken.done then 1 else 0
  | _ => ShellM.abort "Usage: getopts optstring var [arg...]"

def readLine (raw : Bool) (bytes : List UInt8) (done : List Segment) (current : List Char) :
    List Segment × Bool :=
  let close (current : List Char) : Segment :=
    ⟨.separators, [.text false (String.ofList current.reverse)]⟩
  match bytes with
  | [] => ((close current :: done).reverse, false)
  | b :: rest =>
    let c := Char.ofNat b.toNat
    if b == 0 then
      readLine raw rest done current
    else if c == '\n' then
      ((close current :: done).reverse, true)
    else if c == '\\' && !raw then
      match rest with
      | [] => ((close current :: done).reverse, false)
      | next :: rest =>
        if next == 0x0A then
          readLine raw rest (close current :: done) []
        else
          let text := String.singleton (Char.ofNat next.toNat)
          let quoted : Segment := ⟨.nowhere, [.text true text]⟩
          readLine raw rest (quoted :: close current :: done) []
    else
      readLine raw rest done (c :: current)

def readInto (args : List String) : ShellM Nat := do
  let (given, names) ← readOptions ['r'] ['p'] (args.length + 1) args
  let raw := given.any (·.1 == 'r')
  if names.isEmpty then
    ShellM.abort "arg count"
  let bytes := (← ShellM.process (Process.readLine 0 !raw)).toOption.getD []
  let (segments, ended) := readLine raw bytes [] []
  let fields := Fields.split (← get).separators (some names.length) segments
  for (name, index) in names.zipIdx do
    ShellM.assignNamed name (Atom.text (fields.getD index []))
  return if ended then 0 else 1

end Builtin
end Shell
end Rehearsal
end Waybind
