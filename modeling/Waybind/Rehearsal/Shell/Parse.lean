import Waybind.Rehearsal.Shell.Source

/-!
This module contains how scripts are read. A script is read line by line: `commandLine?` reads a
command up to the end of its last line, so that a mistake further on is found only when the commands
before it have been run.
-/

namespace Waybind
namespace Rehearsal
namespace Shell
namespace Parse

open ParseM

/--
Where a word, or a part of one, ends. Parts may be in a text, where double quotes mean less, or in
braces, where a brace may be quoted.
-/
inductive Ending where
  | blank
  | mark
  | quote (inBraces : Bool) (around : Surroundings)
  | brace (quoted : Bool) (around : Surroundings)
  | sum (depth : Nat) (around : Surroundings)
  | document (around : Surroundings)

namespace Ending

def quotes : Ending → Bool
  | .blank | .mark => false
  | .brace quoted _ => quoted
  | .quote .. | .sum .. | .document _ => true

def around : Ending → Surroundings
  | .blank | .mark => .script
  | .quote _ around | .brace _ around | .sum _ around | .document around => around

def unescapes (ending : Ending) (c : Char) : Bool :=
  if c == '"' then
    match ending with
    | .document _ => false
    | _ => true
  else if c == '\x7d' then
    match ending with
    | .quote inBraces _ => inBraces
    | .brace .. => true
    | _ => false
  else
    c == '$' || c == '`' || c == '\\'

def complaint? : Ending → Option String
  | .blank | .mark | .document _ => none
  | .quote _ around => some around.quoteComplaint
  | .brace quoted around => some (if quoted then around.quoteComplaint else "Missing '\x7d'")
  | .sum .. => some "Missing '))'"

end Ending

def isDelimiter (c : Char) : Bool :=
  [' ', '\t', '\n', ';', '&', '|', '(', ')', '<', '>'].contains c

def isOrdinary (ending : Ending) (c : Char) : Bool :=
  let special := ['\\', '$', '`', '"', '\'', '\x7d', '(', ')', '\n']
  let delimits :=
    match ending with
    | .blank | .mark => isDelimiter c
    | _ => false
  !(special.contains c || delimits)

def backquoted (quoted : Bool) (done cs : List Char) (count : Nat) :
    Except Nat (List Char × List Char × Nat) :=
  match cs with
  | [] => .error count
  | '`' :: rest => .ok (done.reverse, rest, count)
  | '\\' :: '\n' :: rest => backquoted quoted done rest (count + 1)
  | '\\' :: c :: rest =>
    if ['\\', '`', '$'].contains c || (quoted && c == '"') then
      backquoted quoted (c :: done) rest count
    else
      backquoted quoted (c :: '\\' :: done) rest count
  | c :: rest => backquoted quoted (c :: done) rest (if c == '\n' then count + 1 else count)

def isSpecialParameter (c : Char) : Bool :=
  ['@', '*', '#', '?', '-', '$', '!'].contains c

def fallback? (c : Char) : Option Fallback :=
  match c with
  | '-' => some .default
  | '=' => some .assign
  | '?' => some .require
  | '+' => some .alternative
  | _ => none

structure Care where
  newlines : Bool := false
  keywords : Bool := false
  aliases : Bool := false

namespace Care

def command : Care :=
  ⟨true, true, true⟩

def sameLine : Care :=
  ⟨false, true, true⟩

end Care

def arrow (c : Char) : ParseM (Nat × Arrow) := do
  if c == '>' then
    if ← accept '>' then
      return (1, .file .append)
    else if ← accept '|' then
      return (1, .file .replace)
    else if ← accept '&' then
      return (1, .duplicate)
    else
      return (1, .file .create)
  else if ← accept '<' then
    return (0, .document (← accept '-'))
  else if ← accept '&' then
    return (0, .duplicate)
  else if ← accept '>' then
    return (0, .file .update)
  else
    return (0, .file .read)

def operator? (c : Char) : ParseM (Option Token) := do
  let doubled (text : String) : ParseM (Option Token) := do
    advance
    return some (.operator (if ← accept c then text ++ text else text))
  match c with
  | '&' => doubled "&"
  | '|' => doubled "|"
  | ';' => doubled ";"
  | '(' =>
    advance
    return some (.operator "(")
  | ')' =>
    advance
    return some (.operator ")")
  | _ => return none

def dropReplaced : ParseM Unit :=
  modify fun source =>
    if source.replaced.isEmpty then
      source
    else
      let left := source.rest.length
      { source with replaced := source.replaced.filter (·.left < left) }

def leftBlankAlias (replaced : List Replaced) (rest : List Char) : Bool :=
  if replaced.isEmpty then
    false
  else
    let left := rest.length
    replaced.any fun entry => entry.endsBlank && left ≤ entry.left

mutual

def parts (fuel : Nat) (ending : Ending) : ParseM Word := do
  match fuel with
  | 0 => fail "word too long"
  | fuel + 1 =>
    let next ← look
    let rest := (← get).rest
    let quoted := ending.quotes
    let addText (quoted : Bool) (text rest : List Char) : ParseM Word := do
      skipText text rest
      return Word.cons (.text quoted (String.ofList text)) (← parts fuel ending)
    match next, rest.drop 1 with
    | none, _ =>
      match ending.complaint? with
      | some message => fail message
      | none => return []
    | some '\\', [] => addText quoted ['\\'] []
    | some '\\', c :: rest =>
      if !quoted || ending.unescapes c then
        addText true [c] rest
      else
        addText true ['\\', c] rest
    | some '$', rest =>
      match ending with
      | .mark => addText false ['$'] rest
      | _ =>
        advance
        let part ← dollar fuel ending
        return Word.cons part (← parts fuel ending)
    | some '`', rest =>
      match ending with
      | .mark => addText true ['`'] rest
      | _ =>
        match backquoted quoted [] rest 0 with
        | .error count =>
          modify fun source => { source with rest := [], line := source.line + count }
          fail "EOF in backquote substitution"
        | .ok (script, after, count) =>
          let outer ← get
          set { outer with
            rest := script, line := 1, pushed := none, replaced := [], waiting := [] }
          let command ← list fuel false true .skip
          let inner ← get
          set { outer with
            rest := after, line := outer.line + count, documents := inner.documents }
          return .output quoted command :: (← parts fuel ending)
    | some '"', rest =>
      let openQuote (inBraces : Bool) : ParseM Word := do
        advance
        let inner ← parts fuel (.quote inBraces ending.around)
        advance
        return (Word.enquoted inner).foldr Word.cons (← parts fuel ending)
      match ending with
      | .quote .. => return []
      | .document _ | .sum .. => addText quoted ['"'] rest
      | .blank | .mark => openQuote false
      | .brace .. => openQuote true
    | some '\'', rest =>
      if quoted then
        addText true ['\''] rest
      else
        match ending.around.untilQuote (rest.length + 1) rest with
        | .ok (text, rest) => addText true text rest
        | .error (after, count) =>
          modify fun source => { source with rest := after, line := source.line + count }
          fail ending.around.quoteComplaint
    | some '\x7d', rest =>
      match ending with
      | .brace .. => return []
      | _ => addText quoted ['\x7d'] rest
    | some '(', rest =>
      match ending with
      | .blank | .mark => return []
      | .sum depth around =>
        advance
        return Word.cons (.text true "(") (← parts fuel (.sum (depth + 1) around))
      | _ => addText quoted ['('] rest
    | some ')', rest =>
      match ending with
      | .blank | .mark => return []
      | .sum 0 _ =>
        advance
        if (← look) == some ')' then
          return []
        else
          return Word.cons (.text true ")") (← parts fuel ending)
      | .sum (depth + 1) around =>
        advance
        return Word.cons (.text true ")") (← parts fuel (.sum depth around))
      | _ => addText quoted [')'] rest
    | some '\n', rest =>
      match ending with
      | .blank | .mark => return []
      | _ =>
        match ending.around.nextLine rest with
        | .ok start => addText quoted ['\n'] start
        | .error after =>
          modify fun source => { source with rest := after, line := source.line + 2 }
          match ending.complaint? with
          | some message => fail message
          | none => return [.text true "\n"]
    | some c, _ =>
      match ending, isDelimiter c with
      | .blank, true | .mark, true => return []
      | _, _ =>
        addText quoted (rest.takeWhile (isOrdinary ending)) (rest.dropWhile (isOrdinary ending))

def dollar (fuel : Nat) (ending : Ending) : ParseM Part := do
  let quoted := ending.quotes
  match fuel, ← look with
  | 0, _ => fail "word too long"
  | _, none => return .text quoted "$"
  | fuel + 1, some c =>
    if c == '(' then
      advance
      if ← accept '(' then
        let expression ← parts fuel (.sum 0 ending.around)
        advance
        return .sum quoted expression
      else
        let waiting := (← get).waiting
        modify fun source => { source with waiting := [] }
        let command ← list fuel false true .skip
        let token ← readToken fuel {}
        if !token.isOperator ")" then
          expected token ")"
        modify fun source => { source with waiting := waiting }
        return .output quoted command
    else if c == '\x7b' then
      advance
      braced fuel ending
    else if isNameStart c then
      return .parameter quoted (← ParseM.takeWhile isNameChar) .none
    else if c.isDigit || isSpecialParameter c then
      advance
      return .parameter quoted (String.singleton c) .none
    else
      return .text quoted "$"

def braced (fuel : Nat) (ending : Ending) : ParseM Part := do
  match fuel with
  | 0 => fail "word too long"
  | fuel + 1 =>
    let quoted := ending.quotes
    let close (quoted : Bool) : ParseM Word := do
      let word ← parts fuel (.brace quoted ending.around)
      advance
      return word
    let invalid (name : String) : ParseM Part := do
      discard <| close quoted
      return .parameter quoted name .invalid
    let trim (name : String) (c : Char) : ParseM Part := do
      let longest ← accept c
      return .parameter quoted name (.trim (c == '%') longest (← close false))
    let fallback (name : String) (orEmpty : Bool) : ParseM Part := do
      match ← look with
      | none => invalid name
      | some c =>
        advance
        match fallback? c with
        | some kind => return .parameter quoted name (.fallback kind orEmpty (← close quoted))
        | none =>
          if c == '\x7d' then
            discard <| close quoted
            return .parameter quoted name .none
          invalid name
    let rest (name : String) : ParseM Part := do
      match ← look with
      | some '\x7d' =>
        advance
        return .parameter quoted name .none
      | some '%' =>
        advance
        trim name '%'
      | some '#' =>
        advance
        trim name '#'
      | some ':' =>
        advance
        fallback name true
      | _ => fallback name false
    let ending (name : String) : ParseM Part := do
      if ← accept '\x7d' then
        return .parameter quoted name .length
      else
        invalid name
    let named : ParseM (Option String) := do
      match ← look with
      | none => return none
      | some c =>
        if isNameStart c then
          return some (← ParseM.takeWhile isNameChar)
        else if c.isDigit then
          return some (← ParseM.takeWhile Char.isDigit)
        else if isSpecialParameter c then
          advance
          return some (String.singleton c)
        else
          return none
    if (← look) == some '#' then
      advance
      match ← look with
      | none => invalid "#"
      | some c =>
        if isNameChar c then
          ending ((← named).getD "")
        else
          let source ← get
          let closed :=
            match (skipJoins (source.rest.drop 1)).1 with
            | '\x7d' :: _ => true
            | _ => false
          if c != '\x7d' && closed then
            advance
            if isSpecialParameter c then ending (String.singleton c) else invalid ""
          else
            rest "#"
    else
      match ← named with
      | some name => rest name
      | none =>
        if (← look) != some '\x7d' then
          advance
        invalid ""

def nextToken (fuel : Nat) (isMark : Bool) : ParseM Token := do
  match fuel, ← look with
  | 0, _ => fail "line too long"
  | _, none => return .endOfFile
  | fuel + 1, some c =>
    if c == ' ' || c == '\t' then
      advance
      nextToken fuel isMark
    else if c == '#' then
      modify fun source => { source with rest := source.rest.dropWhile (· != '\n') }
      nextToken fuel isMark
    else if c == '\n' then
      skipText ['\n'] ((← get).rest.drop 1)
      return .newline
    else
      match ← operator? c with
      | some token => return token
      | none =>
        dropReplaced
        let word ← parts fuel (if isMark then .mark else .blank)
        match ← look with
        | none => return .word word
        | some c =>
          let descriptor : Option (Option Nat) :=
            match word with
            | [] => some none
            | [.text false text] =>
              match text.toList with
              | [digit] =>
                if digit.isDigit then some (some (digit.toNat - '0'.toNat)) else none
              | _ => none
            | _ => none
          match c == '<' || c == '>', descriptor with
          | true, some descriptor =>
            advance
            let (usual, arrow) ← arrow c
            return .redirection (descriptor.getD usual) arrow
          | _, _ => return .word word

def readDocuments (fuel : Nat) : ParseM Unit := do
  match fuel, (← get).waiting with
  | 0, _ | _, [] => return
  | fuel + 1, waiting :: others =>
    modify fun source => { source with waiting := others }
    let source ← get
    let document ←
      if waiting.quoted then
        let (text, rest, count) := waiting.rawText (source.rest.length + 1) source.rest
        set { source with rest := rest, line := source.line + count }
        pure [.text true (String.ofList text)]
      else
        match Surroundings.nextLine (.document waiting) source.rest with
        | .ok start =>
          set { source with rest := start }
          parts fuel (.document (.document waiting))
        | .error rest =>
          set { source with rest := rest, line := source.line + 1 }
          pure []
    modify fun source =>
      { source with documents := source.documents.setIfInBounds waiting.number document }
    readDocuments fuel

def readToken (fuel : Nat) (care : Care) : ParseM Token := do
  match fuel with
  | 0 => fail "line too long"
  | fuel + 1 =>
    let source ← get
    match source.pushed with
    | some token =>
      set { source with pushed := none }
      match token with
      | .newline => if care.newlines then readToken fuel care else return .newline
      | token => return token
    | none =>
      match ← nextToken fuel false with
      | .newline =>
        readDocuments fuel
        if care.newlines then readToken fuel care else return .newline
      | .word word =>
        let replacing := care.aliases || leftBlankAlias source.replaced (← get).rest
        match Word.plain? word with
        | none => return .word word
        | some text =>
          if care.keywords && keywords.contains text then
            return .operator text
          let after ← get
          let isBusy := after.replaced.any (·.name == text)
          match replacing && !isBusy, after.aliases.lookup text with
          | true, some value =>
            if !value.isEmpty then
              let last := value.toList.getLast?
              let entry : Replaced :=
                ⟨text, after.rest.length, last == some ' ' || last == some '\t'⟩
              set { after with
                rest := value.toList ++ after.rest, replaced := entry :: after.replaced }
            readToken fuel { care with aliases := true }
          | _, _ => return .word word
      | token => return token

def target (fuel descriptor : Nat) (arrow : Arrow) : ParseM Redirection := do
  match fuel, arrow with
  | 0, _ => fail "line too long"
  | fuel + 1, .document strip =>
    match ← nextToken fuel true with
    | .word word =>
      let source ← get
      let number := source.documents.size
      let waiting : Waiting := ⟨number, (Word.literal word).toList, strip, Word.isQuoted word⟩
      set { source with
        documents := source.documents.push [], waiting := source.waiting ++ [waiting] }
      return .document descriptor number
    | token => unexpected token
  | fuel + 1, arrow =>
    match ← readToken fuel {}, arrow with
    | .word word, .file access => return .file descriptor access word
    | .word word, _ => return .duplicate descriptor word
    | token, _ => unexpected token

def redirections (fuel : Nat) (care : Care) : ParseM (List Redirection) := do
  match fuel with
  | 0 => fail "line too long"
  | fuel + 1 =>
    match ← readToken fuel care with
    | .redirection descriptor arrow =>
      let redirection ← target fuel descriptor arrow
      return redirection :: (← redirections fuel {})
    | token =>
      push token
      return []

def list (fuel : Nat) (isLine mayEnd : Bool) (done : Command) : ParseM Command := do
  match fuel with
  | 0 => fail "line too long"
  | fuel + 1 =>
    let token ← readToken fuel ⟨!isLine, true, true⟩
    match token with
    | .newline => return done
    | .endOfFile =>
      push token
      return done
    | token =>
      push token
      if !isLine && mayEnd && token.endsList then
        return done
      let line := (← get).line
      let command ← andOr fuel
      let token ← readToken fuel {}
      let command := if token.isOperator "&" then .background line command else command
      let done :=
        match done with
        | .skip => command
        | done => .sequence done command
      match token with
      | .endOfFile | .newline =>
        push token
        list fuel isLine true done
      | .operator ";" | .operator "&" => list fuel isLine true done
      | token =>
        if isLine then
          unexpected token
        push token
        return done

def andOr (fuel : Nat) : ParseM Command := do
  match fuel with
  | 0 => fail "line too long"
  | fuel + 1 =>
    let first ← pipeline fuel
    andOrRest fuel first

def andOrRest (fuel : Nat) (first : Command) : ParseM Command := do
  match fuel with
  | 0 => fail "line too long"
  | fuel + 1 =>
    let next : ParseM Command := do
      push (← readToken fuel Care.command)
      pipeline fuel
    match ← readToken fuel {} with
    | .operator "&&" => andOrRest fuel (.both first (← next))
    | .operator "||" => andOrRest fuel (.either first (← next))
    | token =>
      push token
      return first

def pipeline (fuel : Nat) : ParseM Command := do
  match fuel with
  | 0 => fail "line too long"
  | fuel + 1 =>
    let token ← readToken fuel {}
    let negated := token.isOperator "!"
    if negated then
      push (← readToken fuel Care.sameLine)
    else
      push token
    let first ← command fuel
    let others ← pipelineRest fuel
    let whole := if others.isEmpty then first else .pipeline (first :: others)
    return if negated then .negated whole else whole

def pipelineRest (fuel : Nat) : ParseM (List Command) := do
  match fuel with
  | 0 => fail "line too long"
  | fuel + 1 =>
    match ← readToken fuel {} with
    | .operator "|" =>
      push (← readToken fuel Care.command)
      let next ← command fuel
      return next :: (← pipelineRest fuel)
    | token =>
      push token
      return []

def command (fuel : Nat) : ParseM Command := do
  match fuel with
  | 0 => fail "line too long"
  | fuel + 1 =>
    let token ← readToken fuel {}
    let line := (← get).line
    let need (text : String) : ParseM Unit := do
      let token ← readToken fuel {}
      if !token.isOperator text then
        expected token text
    let redirect (command : Command) : ParseM Command := do
      match ← redirections fuel Care.sameLine, command with
      | [], command => return command
      | redirections, .subshell line body _ => return .subshell line body redirections
      | redirections, command => return .redirected line command redirections
    match token with
    | .operator "if" =>
      let branch ← branches fuel
      need "fi"
      redirect branch
    | .operator "while" | .operator "until" =>
      let condition ← list fuel false false .skip
      need "do"
      let body ← list fuel false false .skip
      need "done"
      redirect (.loop (token.isOperator "while") condition body)
    | .operator "for" =>
      let name ←
        match ← readToken fuel {} with
        | .word word =>
          match Word.plain? word with
          | some name => if isName name then pure name else fail "Bad for loop variable"
          | none => fail "Bad for loop variable"
        | _ => fail "Bad for loop variable"
      let words ←
        match ← readToken fuel Care.command with
        | .operator "in" => some <$> wordList fuel
        | .operator ";" => pure none
        | token =>
          push token
          pure none
      let token ← readToken fuel Care.command
      if !token.isOperator "do" then
        expected token "do"
      let body ← list fuel false false .skip
      need "done"
      redirect (.each line name words body)
    | .operator "case" =>
      match ← readToken fuel {} with
      | .word word =>
        let token ← readToken fuel Care.command
        if !token.isOperator "in" then
          expected token "in"
        let cases ← caseList fuel
        redirect (.choose line word cases)
      | token => fail (token.name ++ " unexpected (expecting word)")
    | .operator "(" =>
      let body ← list fuel false false .skip
      need ")"
      redirect (.subshell line body [])
    | .operator "\x7b" =>
      let body ← list fuel false false .skip
      need "\x7d"
      redirect body
    | .word _ | .redirection .. =>
      push token
      simple fuel line true [] [] []
    | token => unexpected token

def branches (fuel : Nat) : ParseM Command := do
  match fuel with
  | 0 => fail "line too long"
  | fuel + 1 =>
    let condition ← list fuel false false .skip
    let token ← readToken fuel {}
    if !token.isOperator "then" then
      expected token "then"
    let whenTrue ← list fuel false false .skip
    match ← readToken fuel {} with
    | .operator "elif" => return .branch condition whenTrue (← branches fuel)
    | .operator "else" => return .branch condition whenTrue (← list fuel false false .skip)
    | token =>
      push token
      return .branch condition whenTrue .skip

def wordList (fuel : Nat) : ParseM (List Word) := do
  match fuel with
  | 0 => fail "line too long"
  | fuel + 1 =>
    match ← readToken fuel {} with
    | .word word => return word :: (← wordList fuel)
    | .newline | .operator ";" => return []
    | token => unexpected token

def caseList (fuel : Nat) : ParseM (List (List Word × Command)) := do
  match fuel with
  | 0 => fail "line too long"
  | fuel + 1 =>
    match ← readToken fuel ⟨true, true, false⟩ with
    | .operator "esac" => return []
    | token =>
      if token.isOperator "(" then
        push (← readToken fuel {})
      else
        push token
      let patterns ← patternList fuel
      let body ← list fuel false true .skip
      match ← readToken fuel ⟨true, true, false⟩ with
      | .operator "esac" => return [(patterns, body)]
      | .operator ";;" => return (patterns, body) :: (← caseList fuel)
      | token => expected token ";;"

def patternList (fuel : Nat) : ParseM (List Word) := do
  match fuel with
  | 0 => fail "line too long"
  | fuel + 1 =>
    let pattern ←
      match ← readToken fuel {} with
      | .word word => pure word
      | .operator text => pure [.text false text]
      | token =>
        push token
        pure []
    match ← readToken fuel {} with
    | .operator "|" => return pattern :: (← patternList fuel)
    | .operator ")" => return [pattern]
    | token => expected token ")"

def simple (fuel line : Nat) (mayAssign : Bool) (assignments : List (String × Word))
    (words : List Word) (targets : List Redirection) : ParseM Command := do
  match fuel with
  | 0 => fail "line too long"
  | fuel + 1 =>
    match ← readToken fuel { aliases := mayAssign } with
    | .redirection descriptor arrow =>
      let redirection ← target fuel descriptor arrow
      simple fuel line mayAssign assignments words (targets ++ [redirection])
    | .word word =>
      match mayAssign, Word.assignment? word with
      | true, some assignment =>
        simple fuel line true (assignments ++ [assignment]) words targets
      | _, _ => simple fuel line false assignments (words ++ [word]) targets
    | token =>
      match token, assignments, words, targets with
      | .operator "(", [], [word], [] =>
        let token ← readToken fuel {}
        if !token.isOperator ")" then
          expected token ")"
        match Word.plain? word with
        | some name =>
          if !isName name || specialBuiltins.contains name then
            fail "Bad function name"
          let line := (← get).line
          push (← readToken fuel Care.command)
          return .function line name (← command fuel)
        | none => fail "Bad function name"
      | token, _, _, _ =>
        push token
        return .simple line assignments words targets

end

def stepsFor (source : Source) : Nat :=
  let texts := source.aliases.foldl (fun sum (_, text) => sum + text.length) 0
  16 * (source.rest.length + 1) * (texts + 1) + 64

def commandLine? (source : Source) : Except Mistake (Option Command × Source) := do
  let (command, after) ← (list (stepsFor source) true false .skip).run source
  match command with
  | .skip => return (if after.atEnd then none else some .skip, after)
  | command => return (some command, after)

def template (text : String) (documents : Array Word) : Except Mistake (Word × Source) :=
  let source : Source := { rest := text.toList, documents := documents }
  (parts (stepsFor source) (.document .text)).run source

end Parse
end Shell
end Rehearsal
end Waybind
