import Waybind.Rehearsal.Tree
import Waybind.Text.Octets

/-!
This module contains processes: what a program that runs in a rehearsal can see and change. A
process has a working directory in a tree, descriptors that are connected to streams of bytes, and
variables that it was given. All texts of a process are texts of bytes.
-/

namespace Waybind
namespace Rehearsal

/--
A stream of bytes: some that can be read, those that are written, piece by piece with the newest
first, an open file, one that has been removed since, or a device. Reading goes on at `position`. A
file is written to there as well, or else always at its end. If what is written has a limit, nobody
is left to read any more beyond it.
-/
inductive Stream where
  | input (content : Array UInt8) (position : Nat)
  | output (pieces : List (List UInt8)) (size : Nat) (limit : Option Nat)
  | file (location : Location) (position : Nat) (append : Bool)
  | removed (content : Array UInt8) (position : Nat) (append : Bool)
  | device (device : Device)
deriving Repr

structure Channel where
  stream : Stream
  readable : Bool := true
  writable : Bool := true
deriving Repr

namespace Stream

def splice (content bytes : Array UInt8) (position : Nat) : Array UInt8 :=
  if position == content.size then
    content ++ bytes
  else
    content.take position ++ Array.replicate (position - content.size) 0 ++ bytes
      ++ content.drop (position + bytes.size)

def brokenPipe : HostError :=
  .other "Broken pipe"

def write (stream : Stream) (tree : Tree) (bytes : List UInt8) :
    Except HostError (Stream × Tree) :=
  match stream with
  | .input .. => .ok (stream, tree)
  | .output pieces size limit =>
    if (limit.map fun limit => decide (limit ≤ size)).getD false then
      .error brokenPipe
    else
      .ok (.output (bytes :: pieces) (size + bytes.length) limit, tree)
  | .device .full => .error (.other "No space left on device")
  | .device _ => .ok (stream, tree)
  | .removed content position append =>
    let start := if append then content.size else position
    .ok (.removed (splice content bytes.toArray start) (start + bytes.length) append, tree)
  | .file location position append =>
    match tree.get? location with
    | some (.file content) =>
      let start := if append then content.size else position
      .ok (.file location (start + bytes.length) append,
        tree.put location (.file (splice content bytes.toArray start)))
    | _ => .ok (stream, tree)

def readable (stream : Stream) (tree : Tree) : Except HostError (Array UInt8 × Nat) :=
  match stream with
  | .input content position => .ok (content, position)
  | .output .. | .device _ => .ok (#[], 0)
  | .removed content position _ => .ok (content, position)
  | .file location position _ =>
    match tree.get? location with
    | some (.file content) => .ok (content, position)
    | some .directory => .error .isDirectory
    | _ => .ok (#[], 0)

def skip (stream : Stream) (count : Nat) : Stream :=
  match stream with
  | .input content position => .input content (position + count)
  | .file location position append => .file location (position + count) append
  | .removed content position append => .removed content (position + count) append
  | stream => stream

end Stream

inductive Access where
  | read
  | replace
  | append
  | update
  | create
deriving Repr, DecidableEq

/--
A process. `descriptors` says which of the channels each descriptor is connected to, and `mask` what
nobody may do with new files. `issued` is the number that the newest of all processes has.
-/
structure Process where
  tree : Tree
  directory : Location
  channels : Array Channel
  descriptors : List (Nat × Nat)
  environment : List (String × String) := []
  mask : Nat := 0o22
  issued : Nat := 1000

abbrev ProcessM : Type → Type :=
  StateM Process

namespace Process

def start (tree : Tree) (directory : Location) (environment : List (String × String)) :
    Process where
  tree := tree
  directory := directory
  channels := #[⟨.device .null, true, false⟩, ⟨.output [] 0 none, false, true⟩,
    ⟨.output [] 0 none, false, true⟩]
  descriptors := [(0, 0), (1, 1), (2, 2)]
  environment := environment

def collected (process : Process) (channel : Nat) : Array UInt8 :=
  match process.channels[channel]? with
  | some ⟨.output pieces _ _, _, _⟩ => pieces.reverse.flatten.toArray
  | _ => #[]

def connect (process : Process) (descriptor channel : Nat) : Process :=
  { process with
    descriptors := (descriptor, channel) :: process.descriptors.filter (·.1 != descriptor) }

def disconnect (process : Process) (descriptor : Nat) : Process :=
  { process with descriptors := process.descriptors.filter (·.1 != descriptor) }

def addChannel (process : Process) (channel : Channel) : Nat × Process :=
  (process.channels.size, { process with channels := process.channels.push channel })

def channel? (process : Process) (descriptor : Nat) : Option (Nat × Channel) := do
  let index ← process.descriptors.lookup descriptor
  let channel ← process.channels[index]?
  return (index, channel)

def setStream (process : Process) (index : Nat) (channel : Channel) (stream : Stream) : Process :=
  { process with
    channels := process.channels.setIfInBounds index { channel with stream := stream } }

def badDescriptor : HostError :=
  .other "Bad file descriptor"

def writeTo (index : Nat) (bytes : List UInt8) : ProcessM (Except HostError Unit) :=
  modifyGet fun process =>
    match bytes, process.channels[index]? with
    | [], _ => (.ok (), process)
    | _, none => (.error badDescriptor, process)
    | bytes, some channel =>
      if !channel.writable then
        (.error badDescriptor, process)
      else
        match channel.stream.write process.tree bytes with
        | .error error => (.error error, process)
        | .ok (stream, tree) =>
          (.ok (), { process.setStream index channel stream with tree := tree })

def write (descriptor : Nat) (bytes : List UInt8) : ProcessM (Except HostError Unit) := do
  match bytes, (← get).descriptors.lookup descriptor with
  | [], _ => return .ok ()
  | _, none => return .error badDescriptor
  | bytes, some index => writeTo index bytes

def readFrom (index : Nat) (stop : Array UInt8 → Nat → Nat) :
    ProcessM (Except HostError (List UInt8)) :=
  modifyGet fun process =>
    match process.channels[index]? with
    | none => (.error badDescriptor, process)
    | some channel =>
      if !channel.readable then
        (.error badDescriptor, process)
      else
        match channel.stream.readable process.tree with
        | .error error => (.error error, process)
        | .ok (content, position) =>
          let wanted := content.extract position (stop content position)
          (.ok wanted.toList, process.setStream index channel (channel.stream.skip wanted.size))

def readUpTo (descriptor : Nat) (stop : Array UInt8 → Nat → Nat) :
    ProcessM (Except HostError (List UInt8)) := do
  match (← get).descriptors.lookup descriptor with
  | none => return .error badDescriptor
  | some index => readFrom index stop

def readRest (index : Nat) : ProcessM (List UInt8) := do
  return (← readFrom index fun content _ => content.size).toOption.getD []

def readAll (descriptor : Nat) : ProcessM (Except HostError (List UInt8)) :=
  readUpTo descriptor fun content _ => content.size

/--
Where the line ends that goes on at a position. With `escapes`, a backslash lets the line go on
behind the next byte, whatever that is.
-/
def lineEnd (escapes : Bool) (content : Array UInt8) (position : Nat) : Nat :=
  if _ : position < content.size then
    if content[position] == 0x0A then position + 1
    else if escapes && content[position] == 0x5C then lineEnd escapes content (position + 2)
    else lineEnd escapes content (position + 1)
  else
    content.size
termination_by content.size - position

def readLine (descriptor : Nat) (escapes : Bool) : ProcessM (Except HostError (List UInt8)) :=
  readUpTo descriptor (lineEnd escapes)

def printError (text : String) : ProcessM Unit := do
  discard <| write 2 (Octets.toBytes text)

def reason : HostError → String
  | .notFound => "No such file or directory"
  | .permissionDenied => "Permission denied"
  | .alreadyExists => "File exists"
  | .notDirectory => "Not a directory"
  | .isDirectory => "Is a directory"
  | .nameTooLong => "File name too long"
  | .invalidText => "Invalid argument"
  | .other message => message

def pathOf (text : String) : Path :=
  ⟨Octets.toText text⟩

def find (path : String) : ProcessM (Except HostError (Location × Node)) := do
  let process ← get
  return process.tree.find process.directory (pathOf path)

def findEntry (path : String) : ProcessM (Except HostError (Location × Node)) := do
  let process ← get
  return process.tree.findWith false process.directory (pathOf path)

def updateTree (update : Tree → Location → Except HostError Tree) :
    ProcessM (Except HostError Unit) :=
  modifyGet fun process =>
    match update process.tree process.directory with
    | .ok tree => (.ok (), { process with tree := tree })
    | .error error => (.error error, process)

def remove (location : Location) : ProcessM Unit :=
  modify fun process =>
    let heir := (process.tree.otherNames location).head?
    let channels := process.channels.map fun channel =>
      match channel.stream with
      | .file place position append =>
        if !location.isSuffixOf place then
          channel
        else
          match heir, process.tree.get? place with
          | some heir, _ => { channel with stream := .file heir position append }
          | none, some (.file content) =>
            { channel with stream := .removed content position append }
          | none, _ => channel
      | _ => channel
    { process with tree := process.tree.remove location, channels := channels }

def rename (origin goal : Location) : ProcessM Unit :=
  modify fun process =>
    match process.tree.get? origin with
    | none => process
    | some node =>
      let move (location : Location) := if location == origin then goal else location
      let moved := process.tree.nodes.filter (fun (place, _) => place != goal && place != origin)
      let nodes := (moved ++ [(goal, node)]).map fun (place, node) =>
        match node with
        | .shared location => (place, Node.shared (move location))
        | node => (place, node)
      let channels := process.channels.map fun channel =>
        match channel.stream with
        | .file place position append =>
          { channel with stream := .file (move place) position append }
        | _ => channel
      { process with tree := ⟨nodes⟩, channels := channels }

def openFound (access : Access) (location : Location) (node : Node) :
    ProcessM (Except HostError Nat) := do
  let process ← get
  let reading := access == .read || access == .update
  let writing := access != .read
  let add (stream : Stream) : ProcessM (Except HostError Nat) := do
    let (index, process) := (← get).addChannel ⟨stream, reading, writing⟩
    set process
    return .ok index
  let openFile (location : Location) : ProcessM (Except HostError Nat) := do
    if access == .replace then
      modify fun process => { process with tree := process.tree.put location (.file #[]) }
    add (.file location 0 (access == .append))
  match node with
  | .device .terminal => return .error (.other "No such device or address")
  | .device (.descriptor number) =>
    match process.channel? number with
    | some (_, ⟨.file location _ _, _, _⟩) => openFile location
    | some (index, _) => return .ok index
    | none => return .error .notFound
  | .device device => add (.device device)
  | .directory => if writing then return .error .isDirectory else add (.file location 0 false)
  | .program _ => if writing then return .error .permissionDenied else add (.device .null)
  | _ => openFile location

def openPath (path : String) (access : Access) : ProcessM (Except HostError Nat) := do
  let process ← get
  match access, ← find path with
  | .create, .ok (_, .file _) => return .error .alreadyExists
  | access, .ok (location, node) => openFound access location node
  | .read, .error error => return .error error
  | access, .error error =>
    match process.tree.resolve process.directory (pathOf path) with
    | .error error => return .error error
    | .ok target =>
      if target.slash then
        return .error (if error == .notFound then .isDirectory else error)
      modify fun process =>
        { process with tree := process.tree.put target.location (.file #[]) }
      openFound access target.location (.file #[])

def fits (args : List String) : Bool :=
  let size := args.foldl (fun sum arg => sum + arg.utf8ByteSize + 9) 0
  args.all (·.utf8ByteSize < 131072) && size < 2097152

def programAt (tree : Tree) (directory : Location) (path : Path) : Except HostError String :=
  match tree.find directory path with
  | .ok (_, .program program) => .ok program
  | .ok _ => .error .permissionDenied
  | .error error => .error error

def locate (tree : Tree) (directory : Location) (name : String) : Except HostError String :=
  if name.isEmpty then
    .error .notFound
  else if name.toList.contains '/' then
    programAt tree directory ⟨name⟩
  else
    match programAt tree [] ⟨"/usr/bin/" ++ name⟩ with
    | .error .notFound => programAt tree [] ⟨"/bin/" ++ name⟩
    | result => result

end Process
end Rehearsal
end Waybind
