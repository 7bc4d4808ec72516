import Waybind.Rehearsal.Utility.Basic

/-!
This module contains the utility that writes the contents of files one after the other, and the ways
in which it can show them.
-/

namespace Waybind
namespace Rehearsal
namespace Cat

structure Style where
  numbers : Bool
  nonblank : Bool
  squeeze : Bool
  ends : Bool
  tabs : Bool
  controls : Bool

structure State where
  line : Nat := 0
  begins : Bool := true
  blanks : Nat := 0
  waiting : Bool := false

namespace Style

def caret (b : UInt8) : List UInt8 :=
  if b < 0x20 then [0x5E, b + 0x40] else if b == 0x7F then [0x5E, 0x3F] else [b]

def display (style : Style) (b : UInt8) : List UInt8 :=
  if b == 0x09 then
    if style.tabs then [0x5E, 0x49] else [b]
  else if style.controls then
    if b < 0x80 then caret b else [0x4D, 0x2D] ++ caret (b - 0x80)
  else
    [b]

def label (line : Nat) : List UInt8 :=
  let digits := (toString line).toList
  Octets.toBytes (String.ofList (List.replicate (6 - digits.length) ' ' ++ digits ++ ['\t']))

def holdsBack (style : Style) (b : UInt8) : Bool :=
  b == 0x0D && style.ends && !style.controls

def format (style : Style) (state : State) (done : List UInt8) (bytes : List UInt8) :
    State × List UInt8 :=
  match bytes with
  | [] => (state, done)
  | b :: bytes =>
    if b == 0x0A then
      let blanks := if state.begins then state.blanks + 1 else 0
      if style.squeeze && 2 ≤ blanks then
        style.format { state with blanks := blanks } done bytes
      else
        let numbered := state.begins && style.numbers && !style.nonblank
        let line := if numbered then state.line + 1 else state.line
        let lead := if numbered then label line else []
        let held : List UInt8 := if state.waiting then [0x5E, 0x4D] else []
        let tail : List UInt8 := if style.ends then [0x24, 0x0A] else [0x0A]
        style.format ⟨line, true, blanks, false⟩ ((lead ++ held ++ tail).reverse ++ done) bytes
    else
      let numbered := state.begins && style.numbers
      let line := if numbered then state.line + 1 else state.line
      let lead := if numbered then label line else []
      let held : List UInt8 := if state.waiting then [0x0D] else []
      if style.holdsBack b then
        style.format ⟨line, false, 0, true⟩ ((lead ++ held).reverse ++ done) bytes
      else
        style.format ⟨line, false, 0, false⟩ ((lead ++ held ++ style.display b).reverse ++ done)
          bytes

end Style

def options : OptionTable where
  letters := "benstuvAET"
  words := [("number-nonblank", 'b', .none), ("number", 'n', .none), ("squeeze-blank", 's', .none),
    ("show-nonprinting", 'v', .none), ("show-ends", 'E', .none), ("show-tabs", 'T', .none),
    ("show-all", 'A', .none), ("help", '?', .none), ("version", '!', .none)]

/--
What is read for an operand. A file that is being written to is not read, as it would never end.
-/
def input (arg : String) : ProcessM (Except HostError (List UInt8)) := do
  let process ← get
  let output : Option Location :=
    match process.channel? 1 with
    | some (_, ⟨.file location _ _, _, _⟩) => some location
    | _ => none
  let isOutput (location : Location) (content : Array UInt8) (position : Nat) : Bool :=
    output == some location && decide (position < content.size)
  let refusal : HostError := .other "input file is output file"
  let readFrom (descriptor : Nat) : ProcessM (Except HostError (List UInt8)) := do
    match process.channel? descriptor with
    | some (_, ⟨.file location position append, _, _⟩) =>
      match (Stream.file location position append).readable process.tree with
      | .error error => return .error error
      | .ok (content, position) =>
        if isOutput location content position then return .error refusal
        else Process.readAll descriptor
    | _ => Process.readAll descriptor
  if arg == "-" then
    readFrom 0
  else
    match ← Process.find arg with
    | .error error => return .error error
    | .ok (_, .directory) => return .error .isDirectory
    | .ok (_, .device .terminal) => return .error (.other "No such device or address")
    | .ok (_, .device (.descriptor number)) =>
      match process.channel? number with
      | some (_, ⟨.file location _ _, _, _⟩) =>
        return .ok (match process.tree.get? location with
          | some (.file content) => content.toList
          | _ => [])
      | some _ => readFrom number
      | none => return .error .notFound
    | .ok (location, .file content) =>
      return if isOutput location content 0 then .error refusal else .ok content.toList
    | .ok _ => return .ok []

def writeAll (style : Style) (state : State) (args : List String) : UtilityM Unit := do
  match args with
  | [] =>
    if state.waiting then
      UtilityM.print "\r"
  | arg :: args =>
    match ← UtilityM.process (input arg) with
    | .error error =>
      UtilityM.complain (Quoting.quoteIfNeeded arg ++ ": " ++ Process.reason error)
      writeAll style state args
    | .ok bytes =>
      let (state, shown) := style.format state [] bytes
      match ← UtilityM.writeBytes shown.reverse with
      | .ok () => writeAll style state args
      | .error error => UtilityM.giveUp ("write error: " ++ Process.reason error)

def run (args : List String) : UtilityM Unit := do
  let arguments := options.read args
  if let some mistake := arguments.mistake then
    UtilityM.refuse mistake
  let any (letters : List Char) := letters.any arguments.has
  let style : Style := {
    numbers := any ['n', 'b']
    nonblank := any ['b']
    squeeze := any ['s']
    ends := any ['E', 'A', 'e']
    tabs := any ['T', 'A', 't']
    controls := any ['v', 'A', 'e', 't'] }
  let process ← UtilityM.process get
  if (process.descriptors.lookup 1).isNone then
    UtilityM.giveUp ("standard output: " ++ Process.reason Process.badDescriptor)
  let operands := if arguments.operands.isEmpty then ["-"] else arguments.operands
  writeAll style {} operands
  if operands.contains "-" && (process.descriptors.lookup 0).isNone then
    UtilityM.giveUp ("closing standard input: " ++ Process.reason Process.badDescriptor)

end Cat
end Rehearsal
end Waybind
