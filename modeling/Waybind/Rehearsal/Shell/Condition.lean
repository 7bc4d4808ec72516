import Waybind.Rehearsal.Process
import Waybind.Rehearsal.Shell.Number

/-!
This module contains the conditions that a shell can test: on texts, on numbers and on files.
-/

namespace Waybind
namespace Rehearsal
namespace Shell
namespace Condition

def unaryOperators : List String := [
  "-n", "-z", "-e", "-f", "-d", "-r", "-w", "-x", "-s", "-h", "-L", "-b", "-c", "-p", "-S", "-g",
  "-u", "-k", "-t", "-O", "-G"]

def binaryOperators : List String := [
  "=", "!=", "<", ">", "-eq", "-ne", "-gt", "-ge", "-lt", "-le", "-nt", "-ot", "-ef"]

inductive Kind where
  | absent
  | operand
  | unary
  | binary
  | other (text : String)
deriving Repr, DecidableEq

def kindOf (words : List String) : Kind :=
  match words with
  | [] => .absent
  | word :: rest =>
    if binaryOperators.contains word then
      .binary
    else if unaryOperators.contains word then
      match rest with
      | [] => .operand
      | [_] => .unary
      | next :: _ => if binaryOperators.contains next then .operand else .unary
    else if word == "(" then
      if rest.isEmpty then .operand else .other word
    else if ["!", "-a", "-o", ")"].contains word then
      .other word
    else
      .operand

def number (text : String) : Except String Int :=
  match Number.whole? false text with
  | some number => .ok number
  | none => .error ("Illegal number: " ++ text)

def connected? (process : Process) (descriptor : Nat) : Option (Option Node) :=
  (process.channel? descriptor).map fun (_, channel) =>
    match channel.stream with
    | .input .. | .output .. => none
    | .file location _ _ => process.tree.get? location
    | .removed content _ _ => some (.file content)
    | .device device => some (.device device)

def found? (process : Process) (path : String) : Option (Option Node) :=
  match process.tree.find process.directory (Process.pathOf path) with
  | .ok (_, .device (.descriptor number)) => connected? process number
  | .ok (_, node) => some (some node)
  | .error _ => none

def unary (process : Process) (operator word : String) : Except String Bool :=
  let found := found? process word
  match operator with
  | "-n" => .ok (!word.isEmpty)
  | "-z" => .ok word.isEmpty
  | "-e" | "-r" | "-w" | "-O" | "-G" => .ok found.isSome
  | "-f" =>
    match found with
    | some (some (.file _)) | some (some (.program _)) => .ok true
    | _ => .ok false
  | "-d" => .ok (found == some (some .directory))
  | "-p" => .ok (found == some none)
  | "-x" =>
    match found with
    | some (some .directory) | some (some (.program _)) => .ok true
    | _ => .ok false
  | "-s" =>
    match found with
    | some (some (.file content)) => .ok (!content.isEmpty)
    | some (some .directory) | some (some (.program _)) => .ok true
    | _ => .ok false
  | "-c" =>
    match found with
    | some (some (.device _)) => .ok true
    | _ => .ok false
  | "-h" | "-L" =>
    match process.tree.findWith false process.directory (Process.pathOf word) with
    | .ok (_, .link _) => .ok true
    | _ => .ok false
  | "-t" => do
    discard <| number word
    return false
  | _ => .ok false

def binary (process : Process) (left operator right : String) : Except String Bool := do
  match operator with
  | "=" => return left == right
  | "!=" => return left != right
  | "<" => return left < right
  | ">" => return right < left
  | "-ef" =>
    let place (path : String) :=
      (process.tree.find process.directory (Process.pathOf path)).toOption.map (·.1)
    return (place left).isSome && place left == place right
  | "-nt" | "-ot" => return false
  | operator =>
    let a ← number left
    let b ← number right
    match operator with
    | "-eq" => return a == b
    | "-ne" => return a != b
    | "-gt" => return a > b
    | "-ge" => return a ≥ b
    | "-lt" => return a < b
    | _ => return a ≤ b

abbrev Tested : Type :=
  Except String (Bool × List String)

mutual

def anyOf (process : Process) (fuel : Nat) (words : List String) : Tested := do
  match fuel with
  | 0 => return (false, words)
  | fuel + 1 =>
    let (value, words) ← allOf process fuel words
    if kindOf (words.drop 1) == .other "-o" then
      let (other, words) ← anyOf process fuel (words.drop 2)
      return (value || other, words)
    else
      return (value, words)

def allOf (process : Process) (fuel : Nat) (words : List String) : Tested := do
  match fuel with
  | 0 => return (false, words)
  | fuel + 1 =>
    let (value, words) ← negation process fuel words
    if kindOf (words.drop 1) == .other "-a" then
      let (other, words) ← allOf process fuel (words.drop 2)
      return (value && other, words)
    else
      return (value, words)

def negation (process : Process) (fuel : Nat) (words : List String) : Tested := do
  match fuel with
  | 0 => return (false, words)
  | fuel + 1 =>
    if kindOf words == .other "!" then
      if words.length == 1 then
        return (true, words)
      else
        let (value, words) ← negation process fuel (words.drop 1)
        return (!value, words)
    else
      primary process fuel words

def primary (process : Process) (fuel : Nat) (words : List String) : Tested := do
  match fuel, kindOf words, words with
  | fuel + 1, .other "(", _ :: rest =>
    if kindOf rest == .other ")" then
      return (false, rest)
    else
      let (value, words) ← anyOf process fuel rest
      if kindOf (words.drop 1) == .other ")" then
        return (value, words.drop 1)
      else
        throw "closing paren expected"
  | _, .unary, operator :: word :: rest => return (← unary process operator word, word :: rest)
  | _, _, word :: rest =>
    match kindOf rest, rest with
    | .binary, operator :: right :: rest =>
      return (← binary process word operator right, right :: rest)
    | .binary, [operator] => throw (operator ++ ": argument expected")
    | _, rest => return (!word.isEmpty, word :: rest)
  | _, _, [] => return (false, [])

end

def whole (process : Process) (negated : Bool) (words : List String) : Except String Bool := do
  let (value, words) ← anyOf process (8 * words.length + 8) words
  match words with
  | word :: _ :: _ =>
    throw (if word.isEmpty then "unexpected operator" else word ++ ": unexpected operator")
  | _ => return value != negated

/--
Test a condition. What it means depends on the number of its words first. A second negation in front
does not undo the first.
-/
def holds (process : Process) (negated : Bool) (words : List String) : Except String Bool := do
  match words with
  | [] => return negated
  | [left, operator, right] =>
    if binaryOperators.contains operator then
      return (← binary process left operator right) != negated
    else if left == "(" && right == ")" then
      whole process negated [operator]
    else if left == "!" then
      holds process true [operator, right]
    else
      whole process negated words
  | ["(", left, right, ")"] => whole process negated [left, right]
  | "!" :: left :: operator :: right :: [] => holds process true [left, operator, right]
  | words => whole process negated words
termination_by words.length

end Condition
end Shell
end Rehearsal
end Waybind
