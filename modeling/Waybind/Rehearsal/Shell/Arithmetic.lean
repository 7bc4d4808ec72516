import Waybind.Rehearsal.Shell.State

/-!
This module contains the arithmetic of a shell: expressions on words of 64 bits and on variables.
An expression is evaluated while it is read, so that what comes first is done before a mistake
further on is found.
-/

namespace Waybind
namespace Rehearsal
namespace Shell

inductive Arithmetic.Token where
  | number (value : Int64)
  | named (name : String)
  | operator (text : String)
  | endOfText
deriving Repr, DecidableEq

structure Arithmetic where
  text : String
  rest : List Char
  last : Arithmetic.Token := .endOfText

namespace Arithmetic

abbrev ArithmeticM : Type → Type :=
  StateT Arithmetic ShellM

def fail {α : Type} (message : String) : ArithmeticM α := do
  let text := (← get).text
  ShellM.abort ("arithmetic expression: " ++ message ++ ": \"" ++ text ++ "\"")

def strengths : List (String × Nat) := [
  ("*", 8), ("/", 8), ("%", 8), ("+", 7), ("-", 7), ("<<", 6), (">>", 6), ("<", 5), ("<=", 5),
  (">", 5), (">=", 5), ("==", 4), ("!=", 4), ("&", 3), ("^", 2), ("|", 1)]

def assignments : List String :=
  ["=", "+=", "-=", "*=", "/=", "%=", "<<=", ">>=", "&=", "^=", "|="]

def operators : List (List Char) :=
  (["<<=", ">>="] ++ assignments.drop 1 ++
    ["||", "&&", "==", "!=", "<=", ">=", "<<", ">>"]).map String.toList

def next : ArithmeticM Token := do
  let cs := (← get).rest.dropWhile fun c => c == ' ' || c == '\t' || c == '\n'
  let go (token : Token) (rest : List Char) : ArithmeticM Token := do
    modify fun state => { state with rest := rest }
    return token
  match cs with
  | [] => go .endOfText []
  | c :: rest =>
    if c.isDigit then
      let number := Number.signed true cs
      go (.number (Int64.ofInt number.value)) number.rest
    else if isNameStart c then
      go (.named (String.ofList (cs.takeWhile isNameChar))) (cs.dropWhile isNameChar)
    else
      match operators.find? (·.isPrefixOf cs) with
      | some operator => go (.operator (String.ofList operator)) (cs.drop operator.length)
      | none => go (.operator (String.singleton c)) rest

def advance : ArithmeticM Unit := do
  let token ← next
  modify fun state => { state with last := token }

def truth (condition : Bool) : Int64 :=
  if condition then 1 else 0

def valueOf (name : String) : ArithmeticM Int64 := do
  let text := ((← getThe Shell).namedValue? name).getD ""
  match Number.whole? true text with
  | some value => return Int64.ofInt value
  | none => ShellM.abort ("Illegal number: " ++ text)

def divide (a b : Int64) (operation : Int64 → Int64 → Int64) : ArithmeticM Int64 := do
  if b == 0 then
    fail "division by zero"
  else if a == Int64.minValue && b == -1 then
    throw (.gone (.signaled 8))
  else
    return operation a b

def apply (operator : String) (a b : Int64) : ArithmeticM Int64 :=
  match operator with
  | "+" => return a + b
  | "-" => return a - b
  | "*" => return a * b
  | "/" => divide a b (· / ·)
  | "%" => divide a b (· % ·)
  | "<<" => return a <<< b
  | ">>" => return a >>> b
  | "&" => return a &&& b
  | "|" => return a ||| b
  | "^" => return a ^^^ b
  | "==" => return truth (a == b)
  | "!=" => return truth (a != b)
  | "<" => return truth (a < b)
  | ">" => return truth (a > b)
  | "<=" => return truth (a ≤ b)
  | ">=" => return truth (a ≥ b)
  | _ => return b

def strength : ArithmeticM Nat := do
  match (← get).last with
  | .operator text => return (strengths.lookup text).getD 0
  | _ => return 0

mutual

def assignment (fuel : Nat) (idle : Bool) : ArithmeticM Int64 := do
  match fuel with
  | 0 => fail "expecting primary"
  | fuel + 1 =>
    let state ← get
    match state.last with
    | .named name =>
      match ← next with
      | .operator operator =>
        if assignments.contains operator then
          advance
          let value ← assignment fuel idle
          if idle then
            return value
          let result ←
            if operator == "=" then
              pure value
            else
              let old ← valueOf name
              apply (String.ofList operator.toList.dropLast) old value
          ShellM.assignNamed name (toString result.toInt)
          return result
        set state
        choice fuel idle
      | _ =>
        set state
        choice fuel idle
    | _ => choice fuel idle

def choice (fuel : Nat) (idle : Bool) : ArithmeticM Int64 := do
  match fuel with
  | 0 => fail "expecting primary"
  | fuel + 1 =>
    let condition ← either fuel idle
    match (← get).last with
    | .operator "?" =>
      advance
      let whenTrue ← assignment fuel (idle || condition == 0)
      if (← get).last != .operator ":" then
        fail "expecting ':'"
      advance
      let whenFalse ← choice fuel (idle || condition != 0)
      return if condition == 0 then whenFalse else whenTrue
    | _ => return condition

def either (fuel : Nat) (idle : Bool) : ArithmeticM Int64 := do
  match fuel with
  | 0 => fail "expecting primary"
  | fuel + 1 =>
    let a ← both fuel idle
    match (← get).last with
    | .operator "||" =>
      advance
      let b ← either fuel (idle || a != 0)
      return truth (a != 0 || b != 0)
    | _ => return a

def both (fuel : Nat) (idle : Bool) : ArithmeticM Int64 := do
  match fuel with
  | 0 => fail "expecting primary"
  | fuel + 1 =>
    let a ← operand fuel idle
    let a ← operations fuel idle 0 a
    match (← get).last with
    | .operator "&&" =>
      advance
      let b ← both fuel (idle || a == 0)
      return truth (a != 0 && b != 0)
    | _ => return a

def operations (fuel : Nat) (idle : Bool) (least : Nat) (a : Int64) : ArithmeticM Int64 := do
  match fuel, (← get).last with
  | fuel + 1, .operator operator =>
    let bound ← strength
    if bound ≤ least then
      return a
    else
      advance
      let b ← operand fuel idle
      let b ← operations fuel idle bound b
      let result ← if idle then pure b else apply operator a b
      operations fuel idle least result
  | _, _ => return a

def operand (fuel : Nat) (idle : Bool) : ArithmeticM Int64 := do
  match fuel with
  | 0 => fail "expecting primary"
  | fuel + 1 =>
    let token := (← get).last
    match token with
    | .number value =>
      advance
      return value
    | .named name =>
      advance
      if idle then return 0 else valueOf name
    | .operator "(" =>
      advance
      let value ← assignment fuel idle
      if (← get).last != .operator ")" then
        fail "expecting ')'"
      advance
      return value
    | .operator "+" =>
      advance
      operand fuel idle
    | .operator "-" =>
      advance
      return -(← operand fuel idle)
    | .operator "!" =>
      advance
      return truth ((← operand fuel idle) == 0)
    | .operator "~" =>
      advance
      return ~~~(← operand fuel idle)
    | _ => fail "expecting primary"

end

def evaluate (text : String) : ShellM Int64 := do
  let action : ArithmeticM Int64 := do
    advance
    let value ← assignment (16 * text.length + 16) false
    if (← get).last != .endOfText then
      fail "expecting EOF"
    return value
  let (value, _) ← action.run { text := text, rest := text.toList }
  return value

end Arithmetic
end Shell
end Rehearsal
end Waybind
