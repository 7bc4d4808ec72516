import Waybind.Rehearsal.Process

/-!
This module contains the options of utilities: letters after a dash, words after two dashes, and
operands in any order with them.
-/

namespace Waybind
namespace Rehearsal

inductive ValueRule where
  | none
  | required
  | optional
deriving Repr, DecidableEq

/--
The options that a utility knows: letters without a value, letters with one, and words. Each word
stands for a letter, which need not be among the others.
-/
structure OptionTable where
  letters : String
  valued : String := ""
  words : List (String × Char × ValueRule)

structure GivenOption where
  letter : Char
  value : Option String := Option.none
  arg : String

structure Arguments where
  options : List GivenOption := []
  operands : List String := []
  mistake : Option String := Option.none

namespace Arguments

def has (arguments : Arguments) (letter : Char) : Bool :=
  arguments.options.any (·.letter == letter)

end Arguments

namespace OptionTable

def find (table : OptionTable) (arg name : String) :
    Except String (String × Char × ValueRule) :=
  match table.words.find? (·.1 == name) with
  | some option => .ok option
  | none =>
    let candidates := table.words.filter fun (word, _) => name.toList.isPrefixOf word.toList
    match candidates with
    | [] => .error ("unrecognized option '" ++ arg ++ "'")
    | option :: others =>
      if others.all (·.2 == option.2) then
        .ok option
      else
        .error ("option '" ++ arg ++ "' is ambiguous; possibilities:"
          ++ String.join (candidates.map fun (word, _) => " '--" ++ word ++ "'"))

def readLetters (table : OptionTable) (arg : String) (next : Option String)
    (letters : List Char) : Except (List GivenOption × String) (List GivenOption × Bool) :=
  match letters with
  | [] => .ok ([], false)
  | letter :: letters =>
    if table.valued.toList.contains letter then
      match letters, next with
      | [], some value => .ok ([⟨letter, value, arg⟩], true)
      | [], none =>
        .error ([], "option requires an argument -- '" ++ String.singleton letter ++ "'")
      | letters, _ => .ok ([⟨letter, String.ofList letters, arg⟩], false)
    else if table.letters.toList.contains letter then
      match table.readLetters arg next letters with
      | .ok (options, usesNext) => .ok (⟨letter, none, arg⟩ :: options, usesNext)
      | .error (options, message) => .error (⟨letter, none, arg⟩ :: options, message)
    else
      .error ([], "invalid option -- '" ++ String.singleton letter ++ "'")

def readWord (table : OptionTable) (arg : String) (next : Option String) (name : String)
    (value : Option String) : Except String (GivenOption × Bool) := do
  let (word, letter, rule) ← table.find arg name
  match rule, value, next with
  | .none, some _, _ => throw ("option '--" ++ word ++ "' doesn't allow an argument")
  | .required, none, some next => return (⟨letter, next, arg⟩, true)
  | .required, none, none => throw ("option '--" ++ word ++ "' requires an argument")
  | _, value, _ => return (⟨letter, value, arg⟩, false)

/--
Read arguments. Two dashes end the options, and a dash alone is an operand. `skip` tells that the
first argument has been used as a value.
-/
def readAll (table : OptionTable) (skip : Bool) (args : List String) : Arguments :=
  match args with
  | [] => {}
  | arg :: args =>
    if skip then
      table.readAll false args
    else
      match arg.toList with
      | ['-', '-'] => { operands := args }
      | '-' :: '-' :: text =>
        let name := String.ofList (text.takeWhile (· != '='))
        let value :=
          match text.dropWhile (· != '=') with
          | _ :: value => some (String.ofList value)
          | [] => none
        match table.readWord arg args.head? name value with
        | .error message => { mistake := message }
        | .ok (option, usesNext) =>
          let rest := table.readAll usesNext args
          { rest with options := option :: rest.options }
      | '-' :: c :: cs =>
        match table.readLetters arg args.head? (c :: cs) with
        | .error (options, message) => { options := options, mistake := message }
        | .ok (options, usesNext) =>
          let rest := table.readAll usesNext args
          { rest with options := options ++ rest.options }
      | _ =>
        let rest := table.readAll false args
        { rest with operands := arg :: rest.operands }

def read (table : OptionTable) (args : List String) : Arguments :=
  table.readAll false args

end OptionTable

abbrev Choices : Type :=
  List (List String)

namespace Choices

def find (choices : Choices) (text : String) : Except String Nat :=
  match choices.findIdx? (·.contains text) with
  | some index => .ok index
  | none =>
    let begins (spelling : String) := text.toList.isPrefixOf spelling.toList
    let candidates := (List.range choices.length).filter fun index =>
      (choices[index]?.getD []).any begins
    match candidates with
    | [] => .error "invalid"
    | [index] => .ok index
    | _ => .error "ambiguous"

def refusal (choices : Choices) (fault text context : String) : String :=
  let list := choices.map fun spellings =>
    "\n  - " ++ ", ".intercalate (spellings.map fun spelling => "'" ++ spelling ++ "'")
  fault ++ " argument '" ++ text ++ "' for '" ++ context ++ "'\nValid arguments are:"
    ++ String.join list

end Choices
end Rehearsal
end Waybind
