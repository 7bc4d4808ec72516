import Waybind.Rehearsal.Shell.Builtin.Basic

/-!
This module contains the built-in commands about names: aliases, programs that have been found, and
what a name stands for.
-/

namespace Waybind
namespace Rehearsal
namespace Shell
namespace Builtin

def aliasText (name text : String) : String :=
  name ++ "=" ++ quoteText text ++ "\n"

def aliasOne (arg : String) : ShellM Nat := do
  let name := arg.toList.take 1 ++ (arg.toList.drop 1).takeWhile (· != '=')
  match arg.toList.drop name.length with
  | _ :: text =>
    let entry := (String.ofList name, String.ofList text)
    modify fun shell =>
      if (shell.aliases.lookup entry.1).isSome then
        { shell with
          aliases := shell.aliases.map fun old => if old.1 == entry.1 then entry else old }
      else
        { shell with aliases := shell.aliases ++ [entry] }
    return 0
  | [] =>
    match (← get).aliases.lookup arg with
    | some text =>
      ShellM.print (aliasText arg text)
      return 0
    | none =>
      ShellM.printError ("alias: " ++ arg ++ " not found\n")
      return 1

def setAliases (args : List String) : ShellM Nat := do
  if args.isEmpty then
    for (name, text) in inSlots 39 (← get).aliases do
      ShellM.print (aliasText name text)
    return 0
  let statuses ← args.mapM aliasOne
  return if statuses.any (· != 0) then 1 else 0

def removeAliases (args : List String) : ShellM Nat := do
  let (letters, names) ← options ['a'] args
  if !letters.isEmpty then
    modify fun shell => { shell with aliases := [] }
    return 0
  let mut status := 0
  for name in names do
    if ((← get).aliases.lookup name).isSome then
      modify fun shell => { shell with aliases := shell.aliases.filter (·.1 != name) }
    else
      ShellM.printError ("unalias: " ++ name ++ " not found\n")
      status := 1
  return status

def failureText (error : HostError) : String :=
  match error with
  | .notFound | .notDirectory => "not found"
  | error => Process.reason error

def hashNames (args : List String) : ShellM Nat := do
  let (letters, names) ← options ['r'] args
  if !letters.isEmpty then
    modify fun shell => { shell with known := [] }
    return 0
  if names.isEmpty then
    for (_, path) in inSlots 31 (← get).known do
      ShellM.print (path ++ "\n")
    return 0
  let mut status := 0
  for name in names do
    let shell ← get
    if !(isBuiltin name || (shell.functions.lookup name).isSome || name.toList.contains '/') then
      modify fun shell => { shell with known := shell.known.filter (·.1 != name) }
      match locate shell none name with
      | .ok (path, _) => remember name path
      | .error error =>
        ShellM.report (name ++ ": " ++ failureText error)
        status := 1
  return status

def describe (directories : Option String) (verbose : Bool) (name : String) : ShellM Nat := do
  let shell ← get
  let say (text sentence : String) : ShellM Nat := do
    ShellM.print ((if verbose then name ++ sentence else text) ++ "\n")
    return 0
  let missing : ShellM Nat := do
    if verbose then
      ShellM.print (name ++ ": not found\n")
    return 127
  if keywords.contains name then
    say name " is a shell keyword"
  else
    match shell.aliases.lookup name with
    | some text =>
      if verbose then
        say "" (" is an alias for " ++ text)
      else
        ShellM.print ("alias " ++ aliasText name text)
        return 0
    | none =>
      if (shell.functions.lookup name).isSome then
        say name " is a shell function"
      else if specialBuiltins.contains name then
        say name " is a special shell builtin"
      else if otherBuiltins.contains name then
        say name " is a shell builtin"
      else if name.toList.contains '/' then
        match ← ShellM.process (Process.find name) with
        | .ok _ => say name (" is " ++ name)
        | .error _ => missing
      else
        match directories.isNone, shell.known.lookup name with
        | true, some path => say path (" is a tracked alias for " ++ path)
        | _, _ =>
          match locate shell directories name with
          | .ok (path, _) =>
            if directories.isNone then
              remember name path
            say path (" is " ++ path)
          | .error _ => missing

def describeAll (args : List String) : ShellM Nat := do
  let statuses ← args.mapM (describe none true)
  return if statuses.any (· != 0) then 127 else 0

def describeCommand (args : List String) : ShellM Nat := do
  let (letters, names) ← options ['p', 'v', 'V'] args
  match names with
  | name :: _ =>
    if letters.contains 'v' || letters.contains 'V' then
      let directories := if letters.contains 'p' then some defaultPath else none
      describe directories (letters.contains 'V') name
    else
      return 0
  | [] => return 0

end Builtin
end Shell
end Rehearsal
end Waybind
