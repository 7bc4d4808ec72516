import Waybind.Rehearsal.Shell.Builtin.Basic

/-!
This module contains the built-in commands about where a shell is and what it may do there.
-/

namespace Waybind
namespace Rehearsal
namespace Shell
namespace Builtin

def locationPath (location : Location) : String :=
  "/" ++ "/".intercalate (location.reverse.map Octets.ofText)

def joined (directory path : String) : String :=
  let root (text : String) :=
    match text.toList with
    | '/' :: '/' :: '/' :: _ => "/"
    | '/' :: '/' :: _ => "//"
    | _ => "/"
  let isAbsolute := path.toList.head? == some '/'
  let names (text : String) := (Text.pieces (· == '/') text.toList).filter (!·.isEmpty)
  let all := (if isAbsolute then [] else names directory) ++ names path
  let kept := all.foldl (fun done name =>
    if name == ['.'] then done
    else if name == ['.', '.'] then done.drop 1
    else name :: done) []
  root (if isAbsolute then path else directory)
    ++ "/".intercalate (kept.reverse.map String.ofList)

def enter (physical : Bool) (path : String) : ShellM Bool := do
  let shell ← get
  let logical := joined shell.directory path
  match ← ShellM.process (Process.find (if physical then path else logical)) with
  | .ok (location, .directory) =>
    let reached := if physical then locationPath location else logical
    set { shell with
      process := { shell.process with directory := location }, directory := reached }
    let exported (entry : Variable) : Variable := { entry with exported := true }
    ShellM.assign "OLDPWD" shell.directory
    ShellM.mark "OLDPWD" exported
    ShellM.assign "PWD" reached
    ShellM.mark "PWD" exported
    return true
  | _ => return false

def staysHere (path : String) : Bool :=
  match path.toList with
  | '/' :: _ => true
  | ['.'] | '.' :: '/' :: _ => true
  | ['.', '.'] | '.' :: '.' :: '/' :: _ => true
  | _ => false

def placeOptions (args : List String) : ShellM (Bool × List String) := do
  let (letters, args) ← options ['L', 'P'] args
  return (letters.getLast? == some 'P', args)

def cd (args : List String) : ShellM Nat := do
  let (physical, args) ← placeOptions args
  let shell ← get
  let named (name : String) := (shell.namedValue? name).getD ""
  let (goal, shown) :=
    match args with
    | [] => (named "HOME", false)
    | "-" :: _ => (named "OLDPWD", true)
    | arg :: _ => (arg, false)
  let goal := if goal.isEmpty then "." else goal
  let places :=
    match staysHere goal, shell.namedValue? "CDPATH" with
    | false, some directories => candidates directories goal
    | _, _ => []
  let isDirectory (path : String) :=
    shell.process.tree.isDirectory shell.process.directory (Process.pathOf path)
  let (path, shown) :=
    match places.find? isDirectory with
    | some place => (place, shown || place != goal)
    | none => (goal, shown)
  if ← enter physical path then
    if shown then
      ShellM.print ((← get).directory ++ "\n")
    return 0
  else
    ShellM.abort ("can't cd to " ++ goal)

def pwd (args : List String) : ShellM Nat := do
  let (physical, _) ← placeOptions args
  let shell ← get
  let path := if physical then locationPath shell.process.directory else shell.directory
  ShellM.print (path ++ "\n")
  return 0

def octal (mask : Nat) : String :=
  let digits := Nat.toDigits 8 mask
  String.ofList (List.replicate (4 - digits.length) '0' ++ digits)

def symbolic (mask : Nat) : String :=
  let part (name : String) (shift : Nat) : String :=
    let allowed := 7 - (mask / shift) % 8
    let letters := [('r', 4), ('w', 2), ('x', 1)].filter fun (_, bit) => allowed / bit % 2 == 1
    name ++ "=" ++ String.ofList (letters.map (·.1))
  ",".intercalate [part "u" 64, part "g" 8, part "o" 1]

def permissions (allowed : Nat) (letters : List Char) : Nat :=
  letters.foldl (fun bits letter =>
    bits ||| match letter with
      | 'r' => 4
      | 'w' => 2
      | 'x' => 1
      | 'u' => allowed / 64 % 8
      | 'g' => allowed / 8 % 8
      | 'o' => allowed % 8
      | 'X' => if allowed &&& 0o111 != 0 then 1 else 0
      | _ => 0) 0

def changed? (allowed : Nat) (fuel : Nat) (who now : Nat) (cs : List Char) : Option Nat :=
  match fuel, cs with
  | 0, _ => none
  | _, [] => some now
  | fuel + 1, cs =>
    let names := cs.takeWhile ['a', 'u', 'g', 'o'].contains
    let who := names.foldl (fun who name =>
      who ||| match name with
        | 'a' => 0o111
        | 'u' => 0o100
        | 'g' => 0o010
        | _ => 0o001) who
    let who := if who == 0 then 0o111 else who
    match cs.drop names.length with
    | operator :: rest =>
      if !(['=', '+', '-'].contains operator) then
        none
      else
        let letters := rest.takeWhile ['r', 'w', 'x', 'u', 'g', 'o', 'X', 's'].contains
        let bits := permissions allowed letters * who
        let all := 0o777
        let now :=
          match operator with
          | '-' => now &&& (all ^^^ bits)
          | '=' => bits ||| (now &&& (all ^^^ (who * 7)))
          | _ => now ||| bits
        match rest.drop letters.length with
        | [] => some now
        | ',' :: rest => changed? allowed fuel 0 now rest
        | c :: rest =>
          if ['=', '+', '-'].contains c then changed? allowed fuel who now (c :: rest) else none
    | [] => some now

def umask (args : List String) : ShellM Nat := do
  let (letters, args) ← options ['S'] args
  let mask := (← get).process.mask
  let change (mask : Nat) : ShellM Nat := do
    modify fun shell => { shell with process := { shell.process with mask := mask } }
    return 0
  match args with
  | [] =>
    ShellM.print ((if letters.isEmpty then octal mask else symbolic mask) ++ "\n")
    return 0
  | arg :: _ =>
    if (arg.toList.head?.map Char.isDigit).getD false then
      match Number.digits 8 0 arg.toList with
      | (value, []) => change (value % 0o1000)
      | _ => ShellM.abort ("Illegal number: " ++ arg)
    else
      let allowed := 0o777 ^^^ mask
      match changed? allowed (arg.length + 1) 0 allowed arg.toList with
      | some allowed => change (0o777 ^^^ allowed)
      | none => ShellM.abort ("Illegal mode: " ++ arg)

def ulimit (args : List String) : ShellM Nat := do
  let letters :=
    ['H', 'S', 'a', 't', 'f', 'd', 's', 'c', 'm', 'l', 'p', 'n', 'v', 'w', 'r']
  let (_, args) ← options letters args
  if args.isEmpty then
    ShellM.print "unlimited\n"
  return 0

def times : ShellM Nat := do
  ShellM.print "0m0.000000s 0m0.000000s\n0m0.000000s 0m0.000000s\n"
  return 0

end Builtin
end Shell
end Rehearsal
end Waybind
