import Waybind.Rehearsal.Process

/-!
This module contains patterns: texts with characters that match more than themselves. A pattern can
be matched with a text, and with the names of files.
-/

namespace Waybind
namespace Rehearsal
namespace Shell

abbrev Pattern : Type :=
  List (Char × Bool)

namespace Pattern

def isWild (c : Char) : Bool :=
  c == '*' || c == '?' || c == '['

def unescape (pattern : Pattern) : Pattern :=
  match pattern with
  | ('\\', false) :: (c, _) :: rest => (c, true) :: unescape rest
  | ('\\', false) :: [] => [('\\', true)]
  | entry :: rest => entry :: unescape rest
  | [] => []

inductive Item where
  | range (first last : Char)
  | named (name : String)
deriving Repr, DecidableEq

def rank (c : Char) : Int :=
  if c.toNat < 128 then c.toNat else (c.toNat : Int) - 256

def classNames : List String := [
  "alnum", "cntrl", "lower", "space", "alpha", "digit", "print", "upper", "blank", "graph", "punct",
  "xdigit"]

def Item.contains (item : Item) (c : Char) : Bool :=
  match item with
  | .range first last => rank first ≤ rank c && rank c ≤ rank last
  | .named "alpha" => c.isAlpha
  | .named "digit" => c.isDigit
  | .named "alnum" => c.isAlphanum
  | .named "upper" => c.isUpper
  | .named "lower" => c.isLower
  | .named "space" => [' ', '\t', '\n', '\r', '\x0b', '\x0c'].contains c
  | .named "blank" => c == ' ' || c == '\t'
  | .named "punct" => '!' ≤ c && c ≤ '~' && !c.isAlphanum
  | .named "graph" => '!' ≤ c && c ≤ '~'
  | .named "print" => ' ' ≤ c && c ≤ '~'
  | .named "cntrl" => c < ' ' || c == '\x7f'
  | .named "xdigit" => c.isDigit || ('a' ≤ c.toLower && c.toLower ≤ 'f')
  | .named _ => false

def className? (pattern : Pattern) : Option String :=
  classNames.find? fun name =>
    ((":" ++ name ++ ":]").toList.map (·, false)).isPrefixOf pattern

def itemsWithin? (fuel : Nat) (isFirst : Bool) (done : List Item) (pattern : Pattern) :
    Option (List Item × Pattern) :=
  match fuel, pattern with
  | 0, _ | _, [] => none
  | fuel + 1, (c, quoted) :: rest =>
    if c == ']' && !quoted && !isFirst then
      some (done, rest)
    else
      let name? := if c == '[' && !quoted then className? rest else none
      match name? with
      | some name => itemsWithin? fuel false (.named name :: done) (rest.drop (name.length + 3))
      | none =>
        match rest with
        | ('-', false) :: (']', false) :: _ => itemsWithin? fuel false (.range c c :: done) rest
        | ('-', false) :: (last, _) :: rest =>
          itemsWithin? fuel false (.range c last :: done) rest
        | rest => itemsWithin? fuel false (.range c c :: done) rest

def bracket? (pattern : Pattern) : Option (Bool × List Item × Pattern) :=
  match pattern with
  | ('!', false) :: rest => (itemsWithin? (rest.length + 1) true [] rest).map (true, ·)
  | rest => (itemsWithin? (rest.length + 1) true [] rest).map (false, ·)

inductive Element where
  | anyText
  | anyChar
  | bracket (negated : Bool) (items : List Item)
  | char (c : Char)
deriving Repr, DecidableEq

def Element.admits (element : Element) (c : Char) : Bool :=
  match element with
  | .anyText | .anyChar => true
  | .bracket negated items => items.any (·.contains c) != negated
  | .char expected => expected == c

def elementsWithin (fuel : Nat) (pattern : Pattern) : List Element :=
  match fuel, pattern with
  | 0, _ | _, [] => []
  | fuel + 1, ('*', false) :: rest => .anyText :: elementsWithin fuel rest
  | fuel + 1, ('?', false) :: rest => .anyChar :: elementsWithin fuel rest
  | fuel + 1, ('[', false) :: rest =>
    match bracket? rest with
    | some (negated, items, rest) => .bracket negated items :: elementsWithin fuel rest
    | none => .char '[' :: elementsWithin fuel rest
  | fuel + 1, (c, _) :: rest => .char c :: elementsWithin fuel rest

def elements (pattern : Pattern) : List Element :=
  elementsWithin pattern.length pattern

def openings (elements : List Element) : List (List Element) :=
  match elements with
  | .anyText :: rest => (.anyText :: rest) :: openings rest
  | elements => [elements]

/--
Add what can be left of elements, unless it is known already. All of it are ends of the same
elements, so that the length tells them apart.
-/
def addOpening (known : List (List Element)) (elements : List Element) : List (List Element) :=
  if known.any (·.length == elements.length) then known else elements :: known

def advance (left : List (List Element)) (c : Char) : List (List Element) :=
  left.foldl (fun known elements =>
    match elements with
    | [] => known
    | .anyText :: rest => (openings (.anyText :: rest)).foldl addOpening known
    | element :: rest =>
      if element.admits c then (openings rest).foldl addOpening known else known) []

def isDone (left : List (List Element)) : Bool :=
  left.any List.isEmpty

def matchElements (elements : List Element) (text : List Char) : Bool :=
  isDone (text.foldl advance (openings elements))

def matchesText (pattern : Pattern) (text : List Char) : Bool :=
  matchElements pattern.unescape.elements text

def closes (pattern : Pattern) : Bool :=
  let rest :=
    match pattern with
    | ('!', false) :: rest => rest
    | rest => rest
  (rest.drop 1).contains (']', false)

def isActive (pattern : Pattern) : Bool :=
  match pattern with
  | [] => false
  | ('*', false) :: _ | ('?', false) :: _ => true
  | ('[', false) :: rest => closes rest || isActive rest
  | _ :: rest => isActive rest

def extend (process : Process) (paths : List String) (part : Pattern) : List String :=
  if part.isActive then
    paths.flatMap fun path =>
      let directory := Process.pathOf (if path.isEmpty then "." else path)
      match process.tree.find process.directory directory with
      | .ok (location, .directory) =>
        let children := (process.tree.children location).map Octets.ofText
        let names := ("." :: ".." :: children).filter fun name =>
          (name.toList.head? != some '.' || part.head?.map (·.1) == some '.')
            && matchElements part.elements name.toList
        names.map (path ++ ·)
      | _ => []
  else
    let text := String.ofList (part.map (·.1))
    paths.map (· ++ text)

def pathParts (pattern : Pattern) : List Pattern :=
  pattern.foldr (fun entry parts =>
    match entry, parts with
    | ('/', _), parts => [] :: parts
    | entry, part :: parts => (entry :: part) :: parts
    | entry, [] => [[entry]]) [[]]

def paths (pattern : Pattern) (process : Process) : List String :=
  match pattern.unescape.pathParts with
  | [] => []
  | part :: parts =>
    if !(part :: parts).any isActive then
      []
    else
      let found := parts.foldl (fun paths part => extend process (paths.map (· ++ "/")) part)
        (extend process [""] part)
      let exists? (path : String) :=
        (process.tree.findWith false process.directory (Process.pathOf path)).isOk
      (found.filter exists?).mergeSort fun a b => decide (a ≤ b)

end Pattern
end Shell
end Rehearsal
end Waybind
