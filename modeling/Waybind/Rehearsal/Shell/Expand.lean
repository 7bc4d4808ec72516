import Waybind.Rehearsal.Shell.Arithmetic
import Waybind.Rehearsal.Shell.Fields

/-!
This module contains what words stand for. Parameters, sums and the output of commands are put in
their place; then what was not in quotes is cut into fields, and patterns are replaced by the names
of files.
-/

namespace Waybind
namespace Rehearsal
namespace Shell

/--
How a word is expanded.

- With `fields`, it is cut into fields afterwards, so that arguments have to be told apart.
- With `tilde`, a tilde in front is a directory, and with `colons` one behind a colon as well.
- With `cuts`, text outside of quotes is cut like a value, since it takes the place of one.
-/
structure Manner where
  fields : Bool := false
  tilde : Bool := false
  colons : Bool := false
  cuts : Bool := false

namespace Manner

def words : Manner :=
  { fields := true, tilde := true }

def single : Manner :=
  { tilde := true }

def value : Manner :=
  { tilde := true, colons := true }

end Manner

def userDirectories : List (String × String) := [
  ("root", "/root"), ("daemon", "/usr/sbin"), ("bin", "/bin"), ("sys", "/dev"), ("sync", "/bin"),
  ("games", "/usr/games"), ("man", "/var/cache/man"), ("lp", "/var/spool/lpd"),
  ("mail", "/var/mail"), ("news", "/var/spool/news"), ("uucp", "/var/spool/uucp"),
  ("proxy", "/bin"), ("www-data", "/var/www"), ("backup", "/var/backups"), ("list", "/var/list"),
  ("irc", "/run/ircd"), ("nobody", "/nonexistent")]

def homeOf? (shell : Shell) (name : String) : Option String :=
  if name.isEmpty then shell.namedValue? "HOME" else userDirectories.lookup name

def tildePieces (shell : Shell) (colons more : Bool) (fuel : Nat) (isStart : Bool)
    (cs : List Char) : List (Bool × String) :=
  match fuel, cs with
  | 0, _ | _, [] => []
  | fuel + 1, c :: rest =>
    let ends (c : Char) := c == '/' || (colons && c == ':')
    let name := rest.takeWhile (!ends ·)
    let after := rest.dropWhile (!ends ·)
    let home? :=
      if isStart && c == '~' && !(more && after.isEmpty) then
        homeOf? shell (String.ofList name)
      else
        none
    match home? with
    | some home => (true, home) :: tildePieces shell colons more fuel false after
    | none =>
      match tildePieces shell colons more fuel (colons && c == ':') rest with
      | (false, text) :: pieces => (false, String.singleton c ++ text) :: pieces
      | pieces => (false, String.singleton c) :: pieces

def expandText (shell : Shell) (manner : Manner) (isFirst more quoted : Bool) (text : String) :
    List Segment :=
  let plain (text : String) : Segment :=
    ⟨if manner.cuts then .separators else .nowhere, [.text false text]⟩
  if quoted then
    [⟨.nowhere, [.mark, .text true text]⟩]
  else if !(manner.colons || (manner.tilde && isFirst)) || !text.toList.contains '~' then
    [plain text]
  else
    let pieces := tildePieces shell manner.colons more (text.length + 1)
      (manner.tilde && isFirst) text.toList
    pieces.map fun (isHome, text) =>
      if isHome then ⟨.nowhere, [.text true text]⟩ else plain text

def argumentPieces (shell : Shell) (manner : Manner) (quoted : Bool) (name : String) :
    List Piece :=
  let between : Piece :=
    if manner.fields && (!quoted || name == "@") then
      if quoted || (shell.namedValue? "IFS").isSome then .cut else .text false " "
    else
      .text quoted (String.ofList (shell.separators.take 1))
  (shell.args.map (Piece.text quoted)).intersperse between

def parameterPieces? (shell : Shell) (manner : Manner) (quoted : Bool) (name : String) :
    Option (List Piece) :=
  if name == "@" || name == "*" then
    some (argumentPieces shell manner quoted name)
  else
    (shell.value? name).map fun value => [.text quoted value]

def cuttingOf (shell : Shell) (quoted : Bool) (name : String) : Cutting :=
  if !quoted then .separators
  else if name == "@" && !shell.args.isEmpty then .arguments
  else .nowhere

def matchedCounts (elements : List Pattern.Element) (atoms : List Atom) : List Nat :=
  let start := Pattern.openings elements
  let add (count : Nat) (left : List (List Pattern.Element)) (counts : List Nat) : List Nat :=
    if Pattern.isDone left then count :: counts else counts
  let (_, _, counts) := atoms.foldl (fun (count, left, counts) atom =>
    let left :=
      match atom with
      | .char c _ => Pattern.advance left c
      | .mark => left
      | .cut => start
    (count + 1, left, add (count + 1) left counts)) (0, start, add 0 start [])
  counts

/--
Remove the beginning or the end of a value that a pattern matches. What is matched at the end goes
up to the next cut, and what is removed up to the last atom. At the beginning it is the other way
round.
-/
def trim (pattern : Pattern) (atEnd longest : Bool) (pieces : List Piece) : List Piece :=
  let elements := pattern.unescape.elements
  let atoms := pieces.flatMap Piece.atoms
  if atEnd then
    let counts := matchedCounts elements.reverse atoms.reverse
    match if longest then counts.head? else counts.getLast? with
    | some count => Piece.takeAtoms (atoms.length - count) pieces
    | none => pieces
  else
    let first := atoms.takeWhile (· != .cut)
    let counts := matchedCounts elements first
    match if longest then counts.head? else counts.getLast? with
    | some count =>
      if longest && count == first.length then [] else Piece.dropAtoms count pieces
    | none => pieces

def expandWith (output : Command → ShellM String) (fuel : Nat) (manner : Manner) (isFirst : Bool)
    (word : Word) : ShellM (List Segment) := do
  match fuel, word with
  | 0, _ | _, [] => return []
  | fuel + 1, part :: rest =>
    let whole (quoted : Bool) (text : String) : List Segment :=
      [⟨if quoted then .nowhere else .separators, [.text quoted text]⟩]
    let segments ←
      match part with
      | .text quoted text =>
        pure (expandText (← get) manner isFirst (!rest.isEmpty) quoted text)
      | .output quoted command => pure (whole quoted (← output command))
      | .sum quoted expression =>
        let text := Segment.text (← expandWith output fuel {} true expression)
        pure (whole quoted (toString (← Arithmetic.evaluate text).toInt))
      | .parameter quoted name modifier =>
        let shell ← get
        let value? := parameterPieces? shell manner quoted name
        let cutting := cuttingOf shell quoted name
        let found : List Segment := [⟨cutting, value?.getD []⟩]
        let needValue : ShellM Unit := do
          if value?.isNone && shell.has 'u' then
            ShellM.abort (name ++ ": parameter not set")
        match modifier with
        | .none =>
          needValue
          pure found
        | .length =>
          needValue
          let joined := parameterPieces? shell { manner with fields := false } quoted name
          let length := (joined.getD []).foldl (fun sum piece => sum + piece.size) 0
          pure [⟨cutting, [.text quoted (toString length)]⟩]
        | .trim atEnd longest pattern =>
          needValue
          match value? with
          | none => pure found
          | some value =>
            let pattern := Segment.pattern (← expandWith output fuel { tilde := true } true pattern)
            pure [⟨cutting, trim pattern atEnd longest value⟩]
        | .fallback kind orEmpty word =>
          let isMissing := value?.isNone || (orEmpty && (value?.getD []).all (·.size == 0))
          let inner := { manner with tilde := true, cuts := !quoted }
          match kind, isMissing with
          | .default, true | .alternative, false => expandWith output fuel inner true word
          | .alternative, true => pure [⟨cutting, []⟩]
          | .assign, true =>
            let text := Segment.text (← expandWith output fuel { tilde := true } true word)
            ShellM.assignNamed name text
            let value := ((← get).value? name).getD ""
            pure [⟨cutting, [.text quoted value]⟩]
          | .require, true =>
            let text := Segment.text (← expandWith output fuel { tilde := true } true word)
            let missing := if orEmpty then "parameter not set or null" else "parameter not set"
            ShellM.abort (name ++ ": " ++ (if word.isEmpty then missing else text))
          | _, false => pure found
        | .invalid => ShellM.abort "Bad substitution"
    return segments ++ (← expandWith output fuel manner false rest)

def fieldsOf (segments : List Segment) : ShellM (List String) := do
  let shell ← get
  let separators := shell.separators
  if segments.all (·.isSolid separators) then
    let isEmpty := segments.all fun segment => segment.pieces.all (·.size == 0)
    return if isEmpty then [] else [Segment.text segments]
  return (Fields.split separators none segments).flatMap fun field =>
    let pattern := Atom.pattern field
    let isPlain := !pattern.any fun (c, _) => Pattern.isWild c
    let paths := if shell.has 'f' || isPlain then [] else pattern.paths shell.process
    if paths.isEmpty then [Atom.text field] else paths

end Shell
end Rehearsal
end Waybind
