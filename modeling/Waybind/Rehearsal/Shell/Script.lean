import Waybind.Rehearsal.Process

/-!
This module contains scripts of a shell: commands, and the words that they are made of.
-/

namespace Waybind
namespace Rehearsal
namespace Shell

inductive Fallback where
  | default
  | assign
  | require
  | alternative
deriving Repr, DecidableEq

mutual

inductive Part where
  | text (quoted : Bool) (text : String)
  | parameter (quoted : Bool) (name : String) (modifier : Modifier)
  | output (quoted : Bool) (script : Command)
  | sum (quoted : Bool) (expression : List Part)

inductive Modifier where
  | none
  | length
  | fallback (kind : Fallback) (orEmpty : Bool) (word : List Part)
  | trim (atEnd longest : Bool) (pattern : List Part)
  | invalid

inductive Redirection where
  | file (descriptor : Nat) (access : Access) (word : List Part)
  | duplicate (descriptor : Nat) (word : List Part)
  | document (descriptor number : Nat)

inductive Command where
  | skip
  | simple (line : Nat) (assignments : List (String × List Part)) (words : List (List Part))
      (redirections : List Redirection)
  | sequence (first second : Command)
  | background (line : Nat) (command : Command)
  | both (first second : Command)
  | either (first second : Command)
  | negated (command : Command)
  | pipeline (commands : List Command)
  | subshell (line : Nat) (command : Command) (redirections : List Redirection)
  | redirected (line : Nat) (command : Command) (redirections : List Redirection)
  | branch (condition whenTrue whenFalse : Command)
  | loop (expects : Bool) (condition body : Command)
  | each (line : Nat) (name : String) (words : Option (List (List Part))) (body : Command)
  | choose (line : Nat) (word : List Part) (cases : List (List (List Part) × Command))
  | function (line : Nat) (name : String) (body : Command)

end

abbrev Word : Type :=
  List Part

namespace Word

def plain? (word : Word) : Option String :=
  match word with
  | [.text false text] => some text
  | _ => none

def literal? (word : Word) : Option String :=
  match word with
  | [.text quoted text] =>
    let isSpecial (c : Char) := ['~', '*', '?', '['].contains c
    if quoted || text == "[" || !text.any isSpecial then some text else none
  | _ => none

def isQuoted (word : Word) : Bool :=
  word.any fun
    | .text quoted _ => quoted
    | .parameter quoted _ _ => quoted
    | .output quoted _ => quoted
    | .sum quoted _ => quoted

def literal (word : Word) : String :=
  String.join (word.map fun
    | .text _ text => text
    | _ => "")

def cons (part : Part) (word : Word) : Word :=
  match part, word with
  | .text true text, .text true next :: rest => .text true (text ++ next) :: rest
  | .text false text, .text false next :: rest => .text false (text ++ next) :: rest
  | part, word => part :: word

def enquoted (inner : Word) : Word :=
  match inner with
  | [.parameter true "@" .none] => inner
  | inner => cons (.text true "") inner

end Word

def isNameStart (c : Char) : Bool :=
  c.isAlpha || c == '_'

def isNameChar (c : Char) : Bool :=
  c.isAlphanum || c == '_'

def isName (text : String) : Bool :=
  match text.toList with
  | [] => false
  | c :: cs => isNameStart c && cs.all isNameChar

def Word.assignment? (word : Word) : Option (String × Word) :=
  match word with
  | .text false text :: rest =>
    let name := String.ofList (text.toList.takeWhile (· != '='))
    match text.toList.dropWhile (· != '=') with
    | '=' :: value =>
      if isName name then
        some (name, if value.isEmpty then rest else .text false (String.ofList value) :: rest)
      else
        none
    | _ => none
  | _ => none

def specialBuiltins : List String := [
  ".", ":", "break", "continue", "eval", "exec", "exit", "export", "local", "readonly", "return",
  "set", "shift", "times", "trap", "unset"]

def keywords : List String := [
  "!", "case", "do", "done", "elif", "else", "esac", "fi", "for", "if", "in", "then", "until",
  "while", "\x7b", "\x7d"]

end Shell
end Rehearsal
end Waybind
