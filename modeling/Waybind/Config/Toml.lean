import Waybind.Table

/-!
This module contains the part of TOML that configurations are written in: pairs of a key and a
value, where a value is a string, a truth value or an array of strings. A text is cut into tokens
first, and the tokens are then read from left to right. All other texts are refused.
-/

namespace Waybind
namespace Toml

inductive Value where
  | string (text : String)
  | boolean (value : Bool)
  | strings (texts : List String)
deriving Repr, DecidableEq

inductive Token where
  | newline
  | blank
  | equals
  | comma
  | openBracket
  | closeBracket
  | word (text : String)
  | string (text : String)
  | longString (text : String)
deriving Repr, DecidableEq

def isSpace (c : Char) : Bool :=
  c == ' ' || c == '\t'

def isPrintable (c : Char) : Bool :=
  c == '\t' || (' ' ≤ c && c ≤ '~') || '\x7f' < c

def isBasicChar (c : Char) : Bool :=
  isPrintable c && c != '"' && c != '\\'

def isLiteralChar (c : Char) : Bool :=
  isPrintable c && c != '\''

def isWordChar (c : Char) : Bool :=
  ('a' ≤ c && c ≤ 'z') || ('A' ≤ c && c ≤ 'Z') || ('0' ≤ c && c ≤ '9') || c == '_' || c == '-'

def hexDigit? (c : Char) : Option Nat :=
  if '0' ≤ c && c ≤ '9' then some (c.toNat - '0'.toNat)
  else if 'a' ≤ c && c ≤ 'f' then some (c.toNat - 'a'.toNat + 10)
  else if 'A' ≤ c && c ≤ 'F' then some (c.toNat - 'A'.toNat + 10)
  else none

def hexChar? (count : Nat) (input : List Char) : Option Char := do
  let digits := input.take count
  let code ← digits.foldlM (fun code c => (code * 16 + ·) <$> hexDigit? c) 0
  if digits.length = count ∧ code.isValidChar then
    some (Char.ofNat code)
  else
    none

def escape? (input : List Char) : Option (Char × List Char) :=
  match input with
  | [] => none
  | c :: rest =>
    if c = 'u' then (hexChar? 4 rest).map (·, rest.drop 4)
    else if c = 'U' then (hexChar? 8 rest).map (·, rest.drop 8)
    else if c = 'b' then some ('\x08', rest)
    else if c = 't' then some ('\t', rest)
    else if c = 'n' then some ('\n', rest)
    else if c = 'f' then some ('\x0c', rest)
    else if c = 'r' then some ('\r', rest)
    else if c = '"' || c = '\\' then some (c, rest)
    else none

theorem length_of_escape? {input rest : List Char} {c : Char}
    (h : escape? input = some (c, rest)) : rest.length < input.length := by
  unfold escape? at h
  split at h
  · cases h
  · next d tail =>
    simp only [List.length_cons]
    split at h
    · obtain ⟨_, _, h⟩ := Option.map_eq_some_iff.1 h
      cases h
      rw [List.length_drop]
      omega
    · split at h
      · obtain ⟨_, _, h⟩ := Option.map_eq_some_iff.1 h
        cases h
        rw [List.length_drop]
        omega
      · repeat' split at h
        all_goals cases h
        all_goals omega

def lineEnd? (input : List Char) : Option (List Char) :=
  match input with
  | '\n' :: rest => some rest
  | '\r' :: '\n' :: rest => some rest
  | _ => none

def dropBlankLines (input : List Char) : List Char :=
  match input with
  | '\r' :: '\n' :: rest => dropBlankLines rest
  | c :: rest => if isSpace c || c == '\n' then dropBlankLines rest else c :: rest
  | [] => []

def continuation? (input : List Char) : Option (List Char) :=
  (lineEnd? (input.dropWhile isSpace)).map dropBlankLines

theorem length_of_lineEnd? {input rest : List Char} (h : lineEnd? input = some rest) :
    rest.length < input.length := by
  unfold lineEnd? at h
  split at h
  · cases h
    simp
  · cases h
    simp only [List.length_cons]
    omega
  · cases h

theorem length_dropBlankLines_le (input : List Char) :
    (dropBlankLines input).length ≤ input.length := by
  fun_induction dropBlankLines input with
  | case1 rest ih =>
    simp only [List.length_cons]
    omega
  | case2 c rest _ _ ih =>
    simp only [List.length_cons]
    omega
  | case3 => simp
  | case4 => simp

theorem length_of_continuation? {input rest : List Char} (h : continuation? input = some rest) :
    rest.length < input.length := by
  obtain ⟨after, ha, rfl⟩ := Option.map_eq_some_iff.1 h
  have h₁ := length_of_lineEnd? ha
  have h₂ := (List.dropWhile_suffix isSpace (l := input)).length_le
  have h₃ := length_dropBlankLines_le after
  omega

def basic (done input : List Char) : Option (List Char × List Char) :=
  match input with
  | [] => none
  | c :: rest =>
    if c = '"' then
      some (done.reverse, rest)
    else if c = '\\' then
      match h : escape? rest with
      | some (e, after) =>
        have := length_of_escape? h
        basic (e :: done) after
      | none => none
    else if isBasicChar c then
      basic (c :: done) rest
    else
      none
termination_by input.length

def literal (done input : List Char) : Option (List Char × List Char) :=
  match input with
  | [] => none
  | c :: rest =>
    if c = '\'' then
      some (done.reverse, rest)
    else if isLiteralChar c then
      literal (c :: done) rest
    else
      none

/--
Up to two quotes directly before the closing three belong to a long string. `input` begins after the
first three quotes in a row.
-/
def closeLong (quote : Char) (done input : List Char) : List Char × List Char :=
  match input with
  | c :: c' :: rest =>
    if c = quote ∧ c' = quote then (done.reverse ++ [quote, quote], rest)
    else if c = quote then (done.reverse ++ [quote], c' :: rest)
    else (done.reverse, input)
  | [c] => if c = quote then (done.reverse ++ [quote], []) else (done.reverse, input)
  | [] => (done.reverse, [])

def startsWithThree (quote : Char) (input : List Char) : Option (List Char) :=
  match input with
  | a :: b :: c :: rest => if a = quote ∧ b = quote ∧ c = quote then some rest else none
  | _ => none

/--
Read a string of several lines up to its three closing double quotes. All line ends become line
feeds.
-/
def longBasic (done input : List Char) : Option (List Char × List Char) :=
  match startsWithThree '"' input with
  | some rest => some (closeLong '"' done rest)
  | none =>
    match input with
    | [] => none
    | '\r' :: '\n' :: rest => longBasic ('\n' :: done) rest
    | c :: rest =>
      if c = '\\' then
        match h : continuation? rest with
        | some after =>
          have := length_of_continuation? h
          longBasic done after
        | none =>
          match h : escape? rest with
          | some (e, after) =>
            have := length_of_escape? h
            longBasic (e :: done) after
          | none => none
      else if c = '\n' || c = '"' || isBasicChar c then
        longBasic (c :: done) rest
      else
        none
termination_by input.length

def longLiteral (done input : List Char) : Option (List Char × List Char) :=
  match startsWithThree '\'' input with
  | some rest => some (closeLong '\'' done rest)
  | none =>
    match input with
    | [] => none
    | '\r' :: '\n' :: rest => longLiteral ('\n' :: done) rest
    | c :: rest =>
      if c = '\n' || c = '\'' || isLiteralChar c then
        longLiteral (c :: done) rest
      else
        none

def longContent (input : List Char) : List Char :=
  (lineEnd? input).getD input

def string? (input : List Char) : Option (Token × List Char) :=
  match startsWithThree '"' input with
  | some rest =>
    (longBasic [] (longContent rest)).map fun (cs, rest) => (.longString (String.ofList cs), rest)
  | none =>
    match startsWithThree '\'' input with
    | some rest =>
      (longLiteral [] (longContent rest)).map fun (cs, rest) =>
        (.longString (String.ofList cs), rest)
    | none =>
      match input with
      | '"' :: rest => (basic [] rest).map fun (cs, rest) => (.string (String.ofList cs), rest)
      | '\'' :: rest => (literal [] rest).map fun (cs, rest) => (.string (String.ofList cs), rest)
      | _ => none

def Token.next? (input : List Char) : Option (Token × List Char) :=
  match input with
  | [] => none
  | c :: rest =>
    if isSpace c then some (.blank, rest)
    else if c = '#' then some (.blank, rest.dropWhile isPrintable)
    else if c = '=' then some (.equals, rest)
    else if c = ',' then some (.comma, rest)
    else if c = '[' then some (.openBracket, rest)
    else if c = ']' then some (.closeBracket, rest)
    else if c = '"' || c = '\'' then string? input
    else if isWordChar c then
      some (.word (String.ofList (c :: rest.takeWhile isWordChar)), rest.dropWhile isWordChar)
    else (lineEnd? input).map (.newline, ·)

theorem length_of_basic {done input cs rest : List Char}
    (h : basic done input = some (cs, rest)) : rest.length < input.length := by
  fun_induction basic done input with
  | case1 => cases h
  | case2 => cases h; simp
  | case3 _ _ _ _ _ _ hlt ih =>
    have := ih h
    simp only [List.length_cons]
    omega
  | case4 => cases h
  | case5 _ _ _ _ _ _ ih =>
    have := ih h
    simp only [List.length_cons]
    omega
  | case6 => cases h

theorem length_of_literal {done input cs rest : List Char}
    (h : literal done input = some (cs, rest)) : rest.length < input.length := by
  fun_induction literal done input with
  | case1 => cases h
  | case2 => cases h; simp
  | case3 _ _ _ _ _ ih =>
    have := ih h
    simp only [List.length_cons]
    omega
  | case4 => cases h

theorem length_of_closeLong {quote : Char} {done input cs rest : List Char}
    (h : closeLong quote done input = (cs, rest)) : rest.length ≤ input.length := by
  unfold closeLong at h
  repeat' split at h
  all_goals cases h
  all_goals simp
  all_goals omega

theorem length_of_startsWithThree {quote : Char} {input rest : List Char}
    (h : startsWithThree quote input = some rest) : rest.length < input.length := by
  unfold startsWithThree at h
  split at h
  · split at h
    · cases h
      simp only [List.length_cons]
      omega
    · cases h
  · cases h

theorem length_of_longBasic {done input cs rest : List Char}
    (h : longBasic done input = some (cs, rest)) : rest.length < input.length := by
  fun_induction longBasic done input with
  | case1 _ _ after hs =>
    have h₁ := length_of_startsWithThree hs
    have h₂ := length_of_closeLong (Option.some.inj h)
    omega
  | case2 => cases h
  | case3 _ _ _ ih =>
    have := ih h
    simp only [List.length_cons]
    omega
  | case4 _ _ _ _ _ _ hlt ih =>
    have := ih h
    simp only [List.length_cons]
    omega
  | case5 _ _ _ _ _ _ _ _ hlt ih =>
    have := ih h
    simp only [List.length_cons]
    omega
  | case6 => cases h
  | case7 _ _ _ _ _ _ _ ih =>
    have := ih h
    simp only [List.length_cons]
    omega
  | case8 => cases h

theorem length_of_longLiteral {done input cs rest : List Char}
    (h : longLiteral done input = some (cs, rest)) : rest.length < input.length := by
  fun_induction longLiteral done input with
  | case1 _ _ after hs =>
    have h₁ := length_of_startsWithThree hs
    have h₂ := length_of_closeLong (Option.some.inj h)
    omega
  | case2 => cases h
  | case3 _ _ _ ih =>
    have := ih h
    simp only [List.length_cons]
    omega
  | case4 _ _ _ _ _ _ ih =>
    have := ih h
    simp only [List.length_cons]
    omega
  | case5 => cases h

theorem length_longContent_le (input : List Char) : (longContent input).length ≤ input.length := by
  unfold longContent
  cases h : lineEnd? input with
  | none => simp
  | some rest =>
    have := length_of_lineEnd? h
    simp only [Option.getD_some]
    omega

theorem length_of_string? {input rest : List Char} {token : Token}
    (h : string? input = some (token, rest)) : rest.length < input.length := by
  unfold string? at h
  split at h
  · next after hs =>
    obtain ⟨⟨cs, tail⟩, hl, heq⟩ := Option.map_eq_some_iff.1 h
    cases heq
    have h₁ := length_of_startsWithThree hs
    have h₂ := length_of_longBasic hl
    have h₃ := length_longContent_le after
    omega
  · split at h
    · next after hs =>
      obtain ⟨⟨cs, tail⟩, hl, heq⟩ := Option.map_eq_some_iff.1 h
      cases heq
      have h₁ := length_of_startsWithThree hs
      have h₂ := length_of_longLiteral hl
      have h₃ := length_longContent_le after
      omega
    · split at h
      · obtain ⟨⟨cs, tail⟩, hl, heq⟩ := Option.map_eq_some_iff.1 h
        cases heq
        have := length_of_basic hl
        simp only [List.length_cons]
        omega
      · obtain ⟨⟨cs, tail⟩, hl, heq⟩ := Option.map_eq_some_iff.1 h
        cases heq
        have := length_of_literal hl
        simp only [List.length_cons]
        omega
      · cases h

theorem Token.length_of_next? {input rest : List Char} {token : Token}
    (h : Token.next? input = some (token, rest)) : rest.length < input.length := by
  unfold Token.next? at h
  split at h
  · cases h
  · next c tail =>
    have h₁ := (List.dropWhile_suffix isPrintable (l := tail)).length_le
    have h₂ := (List.dropWhile_suffix isWordChar (l := tail)).length_le
    split at h
    · cases h; simp
    · split at h
      · cases h
        simp only [List.length_cons]
        omega
      · split at h
        · cases h; simp
        · split at h
          · cases h; simp
          · split at h
            · cases h; simp
            · split at h
              · cases h; simp
              · split at h
                · exact length_of_string? h
                · split at h
                  · cases h
                    simp only [List.length_cons]
                    omega
                  · obtain ⟨after, hl, heq⟩ := Option.map_eq_some_iff.1 h
                    cases heq
                    exact length_of_lineEnd? hl

def tokens? (done : List Token) (input : List Char) : Option (List Token) :=
  match input with
  | [] => some done.reverse
  | input =>
    match h : Token.next? input with
    | none => none
    | some (token, rest) =>
      have := Token.length_of_next? h
      tokens? (if token = .blank then done else token :: done) rest
termination_by input.length

/--
What the tokens read so far lead up to. An array holds its texts newest first, and whether a comma
has to come before the next one.
-/
inductive Expected where
  | line
  | equals (key : String)
  | value (key : String)
  | element (key : String) (texts : List String) (comma : Bool)
  | newline
deriving Repr, DecidableEq

structure State where
  pairs : Table.Draft Value
  expected : Expected

def State.add? (state : State) (key : String) (value : Value) : Option State :=
  if state.pairs.contains key then
    none
  else
    some ⟨state.pairs.add key value, .newline⟩

def State.step? (state : State) (token : Token) : Option State :=
  match state.expected, token with
  | .line, .newline => some state
  | .line, .word key => some { state with expected := .equals key }
  | .line, .string key => some { state with expected := .equals key }
  | .equals key, .equals => some { state with expected := .value key }
  | .value key, .string text => state.add? key (.string text)
  | .value key, .longString text => state.add? key (.string text)
  | .value key, .word "true" => state.add? key (.boolean true)
  | .value key, .word "false" => state.add? key (.boolean false)
  | .value key, .openBracket => some { state with expected := .element key [] false }
  | .element _ _ _, .newline => some state
  | .element key texts _, .closeBracket => state.add? key (.strings texts.reverse)
  | .element key texts true, .comma => some { state with expected := .element key texts false }
  | .element key texts false, .string text =>
    some { state with expected := .element key (text :: texts) true }
  | .element key texts false, .longString text =>
    some { state with expected := .element key (text :: texts) true }
  | .newline, .newline => some { state with expected := .line }
  | _, _ => none

def State.isComplete (state : State) : Bool :=
  state.expected == .line || state.expected == .newline

def withoutMark (input : List Char) : List Char :=
  match input with
  | '\ufeff' :: rest => rest
  | input => input

def parse? (text : String) : Option (Table Value) := do
  let tokens ← tokens? [] (withoutMark text.toList)
  let state ← tokens.foldlM State.step? ⟨.empty, .line⟩
  if state.isComplete then
    some state.pairs.toTable
  else
    none

end Toml
end Waybind
