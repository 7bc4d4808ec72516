import Waybind.Host
import Waybind.Text.Utf8

/-!
This module contains directory trees that exist in memory only, and the operations of a file system
on them.
-/

namespace Waybind
namespace Rehearsal

/--
The place of something in a tree: its name and those of the directories it is in, innermost first.
The root has no names.
-/
abbrev Location : Type :=
  List String

/--
What is not stored in a tree but can be opened all the same. `null` takes whatever is written to it
and gives nothing, `full` takes nothing, `terminal` cannot be opened, and `descriptor` is what a
process has open already.
-/
inductive Device where
  | null
  | full
  | terminal
  | descriptor (number : Nat)
deriving Repr, DecidableEq

/--
What is at a place. A program is known by its name only. `link` leads to another path, and `shared`
is another name of the file at a place.
-/
inductive Node where
  | directory
  | file (content : Array UInt8)
  | program (name : String)
  | device (device : Device)
  | link (path : String)
  | shared (location : Location)
deriving Repr, DecidableEq

structure Tree where
  nodes : List (Location × Node)
deriving Repr, DecidableEq

namespace Tree

def get? (tree : Tree) (location : Location) : Option Node :=
  match location with
  | [] => some .directory
  | location => tree.nodes.lookup location

def put (tree : Tree) (location : Location) (node : Node) : Tree :=
  if tree.nodes.any (·.1 == location) then
    ⟨tree.nodes.map fun entry => if entry.1 == location then (location, node) else entry⟩
  else
    ⟨tree.nodes ++ [(location, node)]⟩

def children (tree : Tree) (location : Location) : List String :=
  tree.nodes.filterMap fun (place, _) =>
    match place with
    | name :: outer => if outer == location then some name else none
    | [] => none

def otherNames (tree : Tree) (location : Location) : List Location :=
  tree.nodes.filterMap fun (place, node) =>
    if node = .shared location then some place else none

def remove (tree : Tree) (location : Location) : Tree :=
  let rest : Tree := ⟨tree.nodes.filter fun entry => !location.isSuffixOf entry.1⟩
  match rest.otherNames location, tree.get? location with
  | heir :: others, some node =>
    others.foldl (fun tree place => tree.put place (.shared heir)) (rest.put heir node)
  | _, _ => rest

def putDirectories (tree : Tree) (location : Location) : Tree :=
  match location with
  | [] => tree
  | name :: outer =>
    let tree := tree.putDirectories outer
    match tree.get? (name :: outer) with
    | some _ => tree
    | none => tree.put (name :: outer) .directory

structure Target where
  location : Location
  node : Option Node
  slash : Bool

def maxName : Nat :=
  255

def maxLinks : Nat :=
  40

def tooManyLinks : HostError :=
  .other "Too many levels of symbolic links"

def namesOf (path : Path) : List String :=
  (path.parts.map String.ofList).filter (!·.isEmpty)

inductive Halt where
  | place (location : Location)
  | link (start : Location) (names : List String)

/--
Walk along names up to the first link. All but the last have to be there. A link at the end is a
place as well unless `follow` is set.
-/
def walkUntilLink (tree : Tree) (follow : Bool) (location : Location) (names : List String) :
    Except HostError Halt :=
  match names with
  | [] => .ok (.place location)
  | name :: names =>
    match tree.get? location with
    | some .directory =>
      if name = "." then
        walkUntilLink tree follow location names
      else if name = ".." then
        walkUntilLink tree follow location.tail names
      else if maxName < name.utf8ByteSize then
        .error .nameTooLong
      else
        let place := name :: location
        let stays := names.isEmpty && !follow
        match tree.get? place with
        | some (.link path) =>
          if stays then
            .ok (.place place)
          else
            let start := if (Path.mk path).isAbsolute then [] else location
            .ok (.link start (namesOf ⟨path⟩ ++ names))
        | some (.shared other) =>
          if stays then .ok (.place place) else walkUntilLink tree follow other names
        | some _ => walkUntilLink tree follow place names
        | none => if names.isEmpty then .ok (.place place) else .error .notFound
    | some _ => .error .notDirectory
    | none => .error .notFound

def walk (tree : Tree) (follow : Bool) (links : Nat) (location : Location) (names : List String) :
    Except HostError Location := do
  match ← walkUntilLink tree follow location names, links with
  | .place location, _ => return location
  | .link start names, links + 1 => walk tree follow links start names
  | .link .., 0 => throw tooManyLinks

def maxPath : Nat :=
  4096

def resolveWith (tree : Tree) (follow : Bool) (directory : Location) (path : Path) :
    Except HostError Target := do
  if path.text.toList.contains '\x00' then
    throw (.other "file name contained an unexpected NUL byte")
  if path.text.isEmpty then
    throw .notFound
  if maxPath ≤ path.text.utf8ByteSize then
    throw .nameTooLong
  let start := if path.isAbsolute then [] else directory
  let slash := path.parts.getLast? == some []
  let location ← walk tree (follow || slash) maxLinks start (namesOf path)
  return ⟨location, tree.get? location, slash⟩

def resolve (tree : Tree) (directory : Location) (path : Path) : Except HostError Target :=
  tree.resolveWith true directory path

def findWith (tree : Tree) (follow : Bool) (directory : Location) (path : Path) :
    Except HostError (Location × Node) := do
  let target ← tree.resolveWith follow directory path
  match target.node with
  | none => throw .notFound
  | some .directory => return (target.location, .directory)
  | some node =>
    if target.slash then throw .notDirectory else return (target.location, node)

def find (tree : Tree) (directory : Location) (path : Path) :
    Except HostError (Location × Node) :=
  tree.findWith true directory path

def isDirectory (tree : Tree) (directory : Location) (path : Path) : Bool :=
  match tree.find directory path with
  | .ok (_, .directory) => true
  | _ => false

def readFile (tree : Tree) (directory : Location) (path : Path) :
    Except HostError (List UInt8) := do
  match ← tree.find directory path with
  | (_, .directory) => throw .isDirectory
  | (_, .file content) => return content.toList
  | _ => return []

def writeFile (tree : Tree) (directory : Location) (path : Path) (content : List UInt8) :
    Except HostError Tree := do
  let target ← tree.resolve directory path
  if target.slash then
    throw .isDirectory
  match target.node with
  | some .directory => throw .isDirectory
  | some (.program _) => throw .permissionDenied
  | some (.device _) => return tree
  | _ => return tree.put target.location (.file content.toArray)

def createOne (tree : Tree) (directory : Location) (path : Path) : Except HostError Tree := do
  let target ← tree.resolve directory path
  match target.node with
  | some _ => throw .alreadyExists
  | none => return tree.put target.location .directory

def ensureOne (tree : Tree) (directory : Location) (path : Path) : Tree × Except HostError Unit :=
  match tree.createOne directory path with
  | .ok tree => (tree, .ok ())
  | .error error =>
    (tree, if tree.isDirectory directory path then .ok () else .error error)

/--
Create a directory with its parents, at most `depth` of them. The parents that were created stay if
the directory itself cannot be created.
-/
def createWithParents (tree : Tree) (directory : Location) (depth : Nat) (path : Path) :
    Tree × Except HostError Unit :=
  if path.text.isEmpty then
    (tree, .ok ())
  else
    match tree.createOne directory path, depth, path.parent? with
    | .error .notFound, depth + 1, some parent =>
      match tree.createWithParents directory depth parent with
      | (tree, .ok ()) => tree.ensureOne directory path
      | failed => failed
    | .error .notFound, _, none => (tree, .error (.other "failed to create whole tree"))
    | _, _, _ => tree.ensureOne directory path

def createDirectory (tree : Tree) (directory : Location) (path : Path) :
    Tree × Except HostError Unit :=
  tree.createWithParents directory path.parts.length path

inductive Change where
  | newDirectory
  | content (bytes : List UInt8)
  | deleted
deriving Repr, DecidableEq

def seen? (tree : Tree) (location : Location) : Option Node := do
  let outer := location.tail
  let name ← location.head?
  let (_, node) ← (tree.find outer ⟨name⟩).toOption
  return node

def relativePath? (directory location : Location) (node : Node) : Option String :=
  if directory.isSuffixOf location && directory.length < location.length then
    let names := (location.take (location.length - directory.length)).reverse
    let slash := if node = .directory then "/" else ""
    some ("/".intercalate names ++ slash)
  else
    none

def listing (tree : Tree) (directory : Location) : List (String × Change) :=
  tree.nodes.filterMap fun (location, _) => do
    let node ← tree.seen? location
    let path ← relativePath? directory location node
    match node with
    | .directory => some (path, .newDirectory)
    | .file content => some (path, .content content.toList)
    | _ => none

def changes (before after : Tree) (directory : Location) : List (String × Change) :=
  let old := before.listing directory
  let new := after.listing directory
  let changed := new.filter fun (path, change) => old.lookup path != some change
  let gone := old.filterMap fun (path, _) =>
    if (new.lookup path).isNone then some (path, .deleted) else none
  changed ++ gone

end Tree
end Rehearsal
end Waybind
