import Waybind.Rehearsal.Utility.Basic

/-!
This module contains the utility that removes files and directories.
-/

namespace Waybind
namespace Rehearsal
namespace Remove

inductive Asking where
  | never
  | once
  | always
deriving Repr, DecidableEq

structure Style where
  force : Bool := false
  asking : Asking := .never
  recursive : Bool := false
  directories : Bool := false
  verbose : Bool := false
  keepsRoot : Bool := true

def options : OptionTable where
  letters := "dfirvIR"
  words := [("force", 'f', .none), ("interactive", 'w', .optional), ("one-file-system", 'x', .none),
    ("no-preserve-root", 'n', .none), ("preserve-root", 'p', .optional),
    ("-presume-input-tty", 't', .none), ("recursive", 'r', .none), ("dir", 'd', .none),
    ("verbose", 'v', .none), ("help", '?', .none), ("version", '!', .none)]

def askingChoices : Choices :=
  [["never", "no", "none"], ["once"], ["always", "yes"]]

def Style.add (style : Style) (option : GivenOption) : UtilityM Style := do
  match option.letter with
  | 'd' => return { style with directories := true }
  | 'f' => return { style with force := true, asking := .never }
  | 'i' => return { style with force := false, asking := .always }
  | 'I' => return { style with force := false, asking := .once }
  | 'r' | 'R' => return { style with recursive := true }
  | 'v' => return { style with verbose := true }
  | 'w' =>
    match option.value with
    | none => return { style with force := false, asking := .always }
    | some text =>
      match ← UtilityM.choose askingChoices "--interactive" text with
      | 0 => return { style with asking := .never }
      | 1 => return { style with force := false, asking := .once }
      | _ => return { style with force := false, asking := .always }
  | 'n' =>
    if option.arg != "--no-preserve-root" then
      UtilityM.giveUp "you may not abbreviate the --no-preserve-root option"
    return { style with keepsRoot := false }
  | 'p' =>
    match option.value with
    | none | some "all" => return { style with keepsRoot := true }
    | some text =>
      UtilityM.giveUp ("unrecognized --preserve-root argument: " ++ Quoting.quote text)
  | _ => return style

def kindOf (node : Node) : String :=
  match node with
  | .directory => "directory"
  | .file content => if content.isEmpty then "regular empty file" else "regular file"
  | .device _ => "character special file"
  | .link _ => "symbolic link"
  | _ => "regular file"

def below (path name : String) : String :=
  if path.toList.getLast? == some '/' then path ++ name else path ++ "/" ++ name

/--
Remove what is at a place, and everything below it, down to a depth. The result is whether it is
gone. A directory stays if anything in it does.
-/
def removeAt (depth : Nat) (style : Style) (path : String) (location : Location) (node : Node) :
    UtilityM Bool := do
  let name := Quoting.quote path
  let declines (question : String) : UtilityM Bool := do
    if style.asking == .always then
      return !(← UtilityM.ask (question ++ " " ++ name))
    else
      return false
  let delete (text : String) : UtilityM Bool := do
    UtilityM.process (Process.remove location)
    if style.verbose then
      UtilityM.print (text ++ name ++ "\n")
    return true
  match depth, node with
  | depth + 1, .directory =>
    let children := ((← UtilityM.process get).tree.children location).reverse
    if children.isEmpty then
      if ← declines "remove directory" then
        return false
      delete "removed directory "
    else
      if ← declines "descend into directory" then
        return false
      let results ← children.mapM fun child => do
        let place := child :: location
        match (← UtilityM.process get).tree.get? place with
        | some node => removeAt depth style (below path (Octets.ofText child)) place node
        | none => return true
      if !results.all id then
        return false
      if ← declines "remove directory" then
        return false
      delete "removed directory "
  | _, node =>
    if ← declines ("remove " ++ kindOf node) then
      return false
    delete "removed "

def removeOne (style : Style) (arg : String) : UtilityM Unit := do
  let name := Quoting.quote arg
  let refuse (error : HostError) : UtilityM Unit :=
    UtilityM.complain ("cannot remove " ++ name ++ ": " ++ Process.reason error)
  match ← UtilityM.process (Process.findEntry arg) with
  | .error error =>
    if !(style.force && [.notFound, .notDirectory, .invalidText].contains error) then
      refuse error
  | .ok (location, node) =>
    let tree := (← UtilityM.process get).tree
    let last := ((Path.mk arg).parts.filter (!·.isEmpty)).getLast?
    if node == .directory then
      let isEmpty := (tree.children location).isEmpty
      if !style.recursive && !(style.directories && isEmpty) then
        refuse (if style.directories then .other "Directory not empty" else .isDirectory)
      else if last == some ['.'] || last == some ['.', '.'] then
        UtilityM.complain ("refusing to remove '.' or '..' directory: skipping " ++ name)
      else if location.isEmpty && style.keepsRoot then
        UtilityM.complain ("it is dangerous to operate recursively on " ++ name)
        UtilityM.complain "use --no-preserve-root to override this failsafe"
      else
        discard <| removeAt (tree.nodes.length + 1) style arg location node
    else
      discard <| removeAt 0 style arg location node

def hint (args : List String) : UtilityM Unit := do
  for arg in args do
    if 1 < arg.length && arg.toList.head? == some '-' then
      if (← UtilityM.process (Process.findEntry arg)).isOk then
        UtilityM.process (Process.printError ("Try '" ++ (← read) ++ " ./"
          ++ Quoting.quoteIfNeeded arg ++ "' to remove the file " ++ Quoting.quote arg ++ ".\n"))
        return

def run (args : List String) : UtilityM Unit := do
  let arguments := options.read args
  let style ← arguments.options.foldlM Style.add ({} : Style)
  if let some mistake := arguments.mistake then
    UtilityM.complain mistake
    hint args
    UtilityM.process (Process.printError
      ("Try '" ++ (← read) ++ " --help' for more information.\n"))
    throw ()
  let count := arguments.operands.length
  if count == 0 then
    if style.force then
      return
    UtilityM.refuse "missing operand"
  if style.asking == .once && (style.recursive || 3 < count) then
    let things := if count == 1 then " argument" else " arguments"
    let manner := if style.recursive then " recursively" else ""
    if !(← UtilityM.ask ("remove " ++ toString count ++ things ++ manner)) then
      return
  for operand in arguments.operands do
    removeOne style operand

end Remove
end Rehearsal
end Waybind
