import Waybind.CommandLine.Execute
import Waybind.Rehearsal.Shell.Run

/-!
This module contains rehearsals: runs of the program on a directory tree in memory. A rehearsal
gives the exit code, what was written to the standard output and to the log, and the tree
afterwards.
-/

namespace Waybind

structure Rehearsal where
  tree : Rehearsal.Tree
  directory : Rehearsal.Location
  level : Level
  output : Array UInt8 := #[]
  log : Array UInt8 := #[]

namespace Rehearsal

abbrev RehearsalM : Type → Type :=
  StateM Rehearsal

def environment : List (String × String) :=
  [("PATH", "/usr/bin:/bin")]

def runProcess (action : ProcessM ExitStatus) : RehearsalM ExitStatus :=
  modifyGet fun rehearsal =>
    let (status, process) := action.run
      (Process.start rehearsal.tree rehearsal.directory environment)
    (status, { rehearsal with
      tree := process.tree
      output := rehearsal.output ++ process.collected 1
      log := rehearsal.log ++ process.collected 2 })

def runProgram (name : String) (args : List String) :
    RehearsalM (Except HostError ExitStatus) := do
  if (name :: args).any (·.toList.contains '\x00') then
    return .error (.other "nul byte found in provided data")
  let rehearsal ← get
  match Process.locate rehearsal.tree rehearsal.directory name with
  | .error error => return .error error
  | .ok program =>
    if !Process.fits (name :: args) then
      return .error (.other "Argument list too long (os error 7)")
    let name := Octets.ofText name
    let args := args.map Octets.ofText
    if program == "sh" then
      .ok <$> runProcess (Shell.start name args)
    else
      .ok <$> runProcess (Utility.run program name args)

def updateTree (update : Tree → Except HostError Tree) : RehearsalM (Except HostError Unit) :=
  modifyGet fun rehearsal =>
    match update rehearsal.tree with
    | .ok tree => (.ok (), { rehearsal with tree := tree })
    | .error error => (.error error, rehearsal)

instance : Host RehearsalM where
  readFile path := do
    let rehearsal ← get
    return rehearsal.tree.readFile rehearsal.directory path
  pathExists path := do
    let rehearsal ← get
    return (rehearsal.tree.find rehearsal.directory path).isOk
  createDirectory path := modifyGet fun rehearsal =>
    let (tree, result) := rehearsal.tree.createDirectory rehearsal.directory path
    (result, { rehearsal with tree := tree })
  writeFile path text := do
    let rehearsal ← get
    updateTree fun tree => tree.writeFile rehearsal.directory path (Utf8.encode text)
  runProgram := runProgram
  print text := modify fun rehearsal =>
    { rehearsal with output := rehearsal.output ++ (Utf8.encode text).toArray }
  notify notice := modify fun rehearsal =>
    { rehearsal with
      log := rehearsal.log ++ (Utf8.encode (notice.entry rehearsal.level)).toArray }

def programs : List String :=
  ["true", "false", "echo", "rm", "cp", "cat", "sh"]

def workingDirectory : Location :=
  ["work", "tmp"]

def devices : List (Location × Device) :=
  [(["null", "dev"], .null), (["zero", "dev"], .null), (["full", "dev"], .full),
    (["tty", "dev"], .terminal), (["stdin", "dev"], .descriptor 0),
    (["stdout", "dev"], .descriptor 1), (["stderr", "dev"], .descriptor 2)]
  ++ (List.range 10).map fun number => ([toString number, "fd", "dev"], .descriptor number)

def emptyTree : Tree :=
  let tree := (⟨[]⟩ : Tree).putDirectories workingDirectory
  let tree := tree.putDirectories ["fd", "dev"]
  let tree := devices.foldl (fun tree (location, device) => tree.put location (.device device)) tree
  let tree := (tree.putDirectories ["bin", "usr"]).putDirectories ["bin"]
  programs.foldl (fun tree name =>
    (tree.put [name, "bin", "usr"] (.program name)).put [name, "bin"] (.program name)) tree

def locationOf (path : Path) : Location :=
  ((path.parts.map String.ofList).filter (!·.isEmpty)).reverse ++ workingDirectory

def treeOf (directories : List Path) (files : List (Path × List UInt8)) : Tree :=
  let tree := directories.foldl (fun tree path => tree.putDirectories (locationOf path)) emptyTree
  files.foldl (fun tree (path, content) =>
    let location := locationOf path
    (tree.putDirectories location.tail).put location (.file content.toArray)) tree

structure Result where
  code : Nat
  output : String
  log : String
  changes : List (String × Tree.Change)

def run (tree : Tree) (args : List String) : Result :=
  match CommandLine.parse args with
  | .error .help => ⟨0, CommandLine.usage, "", []⟩
  | .error .usage => ⟨2, "", CommandLine.usage, []⟩
  | .ok invocation =>
    let (code, rehearsal) := (CommandLine.execute invocation.command : RehearsalM Nat).run
      { tree := tree, directory := workingDirectory, level := invocation.level }
    ⟨code, Utf8.decodeLossy rehearsal.output.toList, Utf8.decodeLossy rehearsal.log.toList,
      Tree.changes tree rehearsal.tree workingDirectory⟩

end Rehearsal
end Waybind
