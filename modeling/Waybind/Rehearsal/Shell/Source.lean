import Waybind.Rehearsal.Shell.Script

/-!
This module contains the source of a script while it is read: what is left of it, the tokens that it
is made of, and what has to be remembered between them.
-/

namespace Waybind
namespace Rehearsal
namespace Shell

inductive Arrow where
  | file (access : Access)
  | duplicate
  | document (strip : Bool)
deriving Repr, DecidableEq

inductive Token where
  | endOfFile
  | newline
  | operator (text : String)
  | redirection (descriptor : Nat) (arrow : Arrow)
  | word (word : Word)

namespace Token

def name : Token → String
  | .endOfFile => "end of file"
  | .newline => "newline"
  | .operator text => "\"" ++ text ++ "\""
  | .redirection .. => "redirection"
  | .word _ => "word"

def isOperator (token : Token) (text : String) : Bool :=
  match token with
  | .operator other => other == text
  | _ => false

def endsList : Token → Bool
  | .endOfFile => true
  | .operator text =>
    [")", ";;", "do", "done", "elif", "else", "esac", "fi", "then", "\x7d"].contains text
  | _ => false

end Token

structure Waiting where
  number : Nat
  mark : List Char
  strip : Bool
  quoted : Bool

structure Replaced where
  name : String
  left : Nat
  endsBlank : Bool

/--
A script that is being read. `pushed` is a token that has been looked at only. `documents` holds the
texts that stand in the script, by their numbers.
-/
structure Source where
  rest : List Char
  line : Nat := 1
  pushed : Option Token := none
  aliases : List (String × String) := []
  replaced : List Replaced := []
  waiting : List Waiting := []
  documents : Array Word := #[]

def Source.atEnd (source : Source) : Bool :=
  match source.pushed with
  | some .endOfFile => true
  | _ => false

structure Mistake where
  line : Nat
  message : String
  rest : List Char

abbrev ParseM : Type → Type :=
  StateT Source (Except Mistake)

namespace ParseM

def fail {α : Type} (message : String) : ParseM α := do
  let source ← get
  throw ⟨source.line, "Syntax error: " ++ message, source.rest⟩

def unexpected {α : Type} (token : Token) : ParseM α :=
  fail (token.name ++ " unexpected")

def expected {α : Type} (token : Token) (text : String) : ParseM α :=
  fail (token.name ++ " unexpected (expecting \"" ++ text ++ "\")")

def skipJoins (cs : List Char) : List Char × Nat :=
  match cs with
  | '\\' :: '\n' :: rest =>
    let (rest, count) := skipJoins rest
    (rest, count + 1)
  | cs => (cs, 0)

def look : ParseM (Option Char) :=
  modifyGet fun source =>
    let (rest, count) := skipJoins source.rest
    (rest.head?, { source with rest := rest, line := source.line + count })

def advance : ParseM Unit :=
  modify fun source => { source with rest := source.rest.drop 1 }

def skipText (text rest : List Char) : ParseM Unit :=
  modify fun source => { source with rest := rest, line := source.line + text.count '\n' }

def accept (c : Char) : ParseM Bool := do
  if (← look) == some c then
    advance
    return true
  else
    return false

def push (token : Token) : ParseM Unit :=
  modify fun source => { source with pushed := some token }

def takeJoined (wanted : Char → Bool) (cs : List Char) : List Char × List Char × Nat :=
  match cs with
  | '\\' :: '\n' :: rest =>
    let (taken, rest, count) := takeJoined wanted rest
    (taken, rest, count + 1)
  | c :: rest =>
    if wanted c then
      let (taken, rest, count) := takeJoined wanted rest
      (c :: taken, rest, count)
    else
      ([], cs, 0)
  | [] => ([], [], 0)

def takeWhile (wanted : Char → Bool) : ParseM String :=
  modifyGet fun source =>
    let (taken, rest, count) := takeJoined wanted source.rest
    (String.ofList taken, { source with rest := rest, line := source.line + count })

end ParseM

namespace Waiting

def after? (waiting : Waiting) (cs : List Char) : Option (List Char) :=
  if waiting.mark.isPrefixOf cs then
    match cs.drop waiting.mark.length with
    | [] => some []
    | c :: rest => if c == '\n' then some rest else none
  else
    none

def lineStart (waiting : Waiting) (cs : List Char) : List Char :=
  if waiting.strip then cs.dropWhile (· == '\t') else cs

def rawText (waiting : Waiting) (fuel : Nat) (cs : List Char) : List Char × List Char × Nat :=
  match fuel with
  | 0 => ([], cs, 0)
  | fuel + 1 =>
    let cs := waiting.lineStart cs
    match waiting.after? cs with
    | some rest => ([], rest, 1)
    | none =>
      let line := cs.takeWhile (· != '\n')
      match cs.drop line.length with
      | [] => (line, [], 0)
      | _ :: rest =>
        let (text, rest, count) := waiting.rawText fuel rest
        (line ++ '\n' :: text, rest, count + 1)

end Waiting

inductive Surroundings where
  | script
  | text
  | document (waiting : Waiting)

namespace Surroundings

def quoteComplaint : Surroundings → String
  | .script => "Unterminated quoted string"
  | .text | .document _ => "Missing '\x7d'"

def nextLine (around : Surroundings) (cs : List Char) : Except (List Char) (List Char) :=
  match around with
  | .script | .text => .ok cs
  | .document waiting =>
    let start := waiting.lineStart cs
    match waiting.after? start with
    | some after => .error after
    | none => .ok start

def untilQuote (around : Surroundings) (fuel : Nat) (cs : List Char) :
    Except (List Char × Nat) (List Char × List Char) :=
  match fuel with
  | 0 => .error (cs, 0)
  | fuel + 1 =>
    match cs.span fun c => c != '\'' && c != '\n' with
    | (_, []) => .error ([], 0)
    | (line, c :: rest) =>
      if c == '\'' then
        .ok (line, rest)
      else
        match around.nextLine rest with
        | .error after => .error (after, 2)
        | .ok start =>
          match around.untilQuote fuel start with
          | .ok (more, rest) => .ok (line ++ '\n' :: more, rest)
          | .error (after, count) => .error (after, count + 1)

end Surroundings
end Shell
end Rehearsal
end Waybind
