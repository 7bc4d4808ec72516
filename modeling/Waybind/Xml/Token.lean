import Waybind.Xml.Attribute

/-!
This module contains the pieces that a document is cut into: text, references and markup. The main
statement is that every piece leaves a shorter rest of the document.
-/

namespace Waybind
namespace Xml

/--
A piece of a document. `skipped` is markup without a meaning for the tree: comments, processing
instructions, declarations and document types. A tag is what stands between its angle brackets,
without the slash of an end tag or of an empty element.
-/
inductive Token where
  | text (bytes : List UInt8)
  | cdata (bytes : List UInt8)
  | reference (name : List UInt8)
  | skipped
  | opening (tag : List UInt8) (empty : Bool)
  | closing (name : List UInt8)
deriving Repr, DecidableEq

namespace Token

/--
Read up to a `>` whose preceding bytes satisfy `closes`, which is given them newest first.
-/
def untilClose (closes : List UInt8 → Bool) (seen input : List UInt8) :
    Option (List UInt8 × List UInt8) :=
  match input with
  | [] => none
  | b :: rest =>
    if b == '>'.toUInt8 && closes seen then
      some (seen.reverse, rest)
    else
      untilClose closes (b :: seen) rest

/--
Read up to the first `>` outside of quotes. `quote` is the open quote.
-/
def untilTagEnd (quote : Option UInt8) (seen input : List UInt8) :
    Option (List UInt8 × List UInt8) :=
  match input with
  | [] => none
  | b :: rest =>
    match quote with
    | some q => untilTagEnd (if b == q then none else some q) (b :: seen) rest
    | none =>
      if b == '>'.toUInt8 then
        some (seen.reverse, rest)
      else if b == '"'.toUInt8 || b == '\''.toUInt8 then
        untilTagEnd (some b) (b :: seen) rest
      else
        untilTagEnd none (b :: seen) rest

/--
Read up to the `>` that balances. `depth` is the number of open angle brackets.
-/
def untilBalanced (depth : Nat) (seen input : List UInt8) : Option (List UInt8 × List UInt8) :=
  match input with
  | [] => none
  | b :: rest =>
    if b == '>'.toUInt8 then
      match depth with
      | 0 => some (seen.reverse, rest)
      | depth + 1 => untilBalanced depth (b :: seen) rest
    else if b == '<'.toUInt8 then
      untilBalanced (depth + 1) (b :: seen) rest
    else
      untilBalanced depth (b :: seen) rest

def closesCData (seen : List UInt8) : Bool :=
  match seen with
  | b :: b' :: _ => b == ']'.toUInt8 && b' == ']'.toUInt8
  | _ => false

def closesComment (seen : List UInt8) : Bool :=
  -- the two dashes that begin a comment and the two that end it are different ones
  match seen with
  | b :: b' :: _ :: _ :: _ :: _ => b == '-'.toUInt8 && b' == '-'.toUInt8
  | _ => false

def closesInstruction (seen : List UInt8) : Bool :=
  match seen with
  | b :: _ => b == '?'.toUInt8
  | [] => false

def lowerAscii (b : UInt8) : UInt8 :=
  if 0x41 ≤ b && b ≤ 0x5A then b + 0x20 else b

def cdataSection (input : List UInt8) : Except Error (Token × List UInt8) :=
  match untilClose closesCData [] input with
  | some (content, rest) =>
    if (Utf8.encode "![CDATA[").isPrefixOf content then
      .ok (.cdata ((content.drop 8).dropLast.dropLast), rest)
    else
      .error (.markup .unclosedCData)
  | none => .error (.markup .unclosedCData)

def comment (input : List UInt8) : Except Error (Token × List UInt8) :=
  match untilClose closesComment [] input with
  | some (content, rest) =>
    if (Utf8.encode "!--").isPrefixOf content then
      .ok (.skipped, rest)
    else
      .error (.markup .unclosedComment)
  | none => .error (.markup .unclosedComment)

def doctype (input : List UInt8) : Except Error (Token × List UInt8) :=
  match untilBalanced 0 [] input with
  | some (content, rest) =>
    if (Utf8.encode "!doctype").isPrefixOf (content.map lowerAscii) then
      if (content.drop 8).all isSpace then
        .error (.form .missingDoctypeName)
      else
        .ok (.skipped, rest)
    else
      .error (.markup .unclosedDoctype)
  | none => .error (.markup .unclosedDoctype)

def bang (input : List UInt8) : Except Error (Token × List UInt8) :=
  match input with
  | _ :: b :: _ =>
    if b == '['.toUInt8 then cdataSection input
    else if b == '-'.toUInt8 then comment input
    else if b == 'D'.toUInt8 || b == 'd'.toUInt8 then doctype input
    else .error (.markup .invalidBang)
  | _ => .error (.markup .invalidBang)

/--
A processing instruction. `input` begins with the question mark, which cannot end it as well.
-/
def instruction (input : List UInt8) : Except Error (Token × List UInt8) :=
  match untilClose closesInstruction [] input with
  | some (content, rest) =>
    if 2 ≤ content.length then
      .ok (.skipped, rest)
    else
      .error (.markup .unclosedInstruction)
  | none => .error (.markup .unclosedInstruction)

/--
Remove the white space at the end of the name in an end tag, unless there is nothing else.
-/
def closingName (name : List UInt8) : List UInt8 :=
  match name.reverse.dropWhile isSpace with
  | [] => name
  | trimmed => trimmed.reverse

def endTag (input : List UInt8) : Except Error (Token × List UInt8) :=
  match untilTagEnd none [] input with
  | some (content, rest) => .ok (.closing (closingName content), rest)
  | none => .error (.markup .unclosedTag)

def startTag (input : List UInt8) : Except Error (Token × List UInt8) :=
  match untilTagEnd none [] input with
  | some (content, rest) =>
    if content.getLast? == some '/'.toUInt8 then
      .ok (.opening content.dropLast true, rest)
    else
      .ok (.opening content false, rest)
  | none => .error (.markup .unclosedTag)

def markup (input : List UInt8) : Except Error (Token × List UInt8) :=
  match input with
  | [] => .error (.markup .unclosedTag)
  | b :: rest =>
    if b == '!'.toUInt8 then bang input
    else if b == '?'.toUInt8 then instruction input
    else if b == '/'.toUInt8 then endTag rest
    else startTag input

def isReferenceByte (b : UInt8) : Bool :=
  b != ';'.toUInt8 && b != '&'.toUInt8 && b != '<'.toUInt8

def textReference (input : List UInt8) : Except Error (Token × List UInt8) :=
  match input.dropWhile isReferenceByte with
  | [] => .error (.form .unclosedReference)
  | b :: rest =>
    if b == ';'.toUInt8 then
      .ok (.reference (input.takeWhile isReferenceByte), rest)
    else
      .error (.form .unclosedReference)

def isTextByte (b : UInt8) : Bool :=
  b != '<'.toUInt8 && b != '&'.toUInt8

def next (input : List UInt8) : Except Error (Option (Token × List UInt8)) :=
  match input with
  | [] => .ok none
  | b :: rest =>
    if b == '<'.toUInt8 then some <$> markup rest
    else if b == '&'.toUInt8 then some <$> textReference rest
    else .ok (some (.text (b :: rest.takeWhile isTextByte), rest.dropWhile isTextByte))

theorem length_of_untilClose {closes : List UInt8 → Bool} {seen input content rest : List UInt8}
    (h : untilClose closes seen input = some (content, rest)) : rest.length < input.length := by
  induction input generalizing seen with
  | nil => cases h
  | cons b input ih =>
    rw [untilClose] at h
    split at h
    · cases h
      simp
    · have := ih h
      simp only [List.length_cons]
      omega

theorem length_of_untilTagEnd {quote : Option UInt8} {seen input content rest : List UInt8}
    (h : untilTagEnd quote seen input = some (content, rest)) : rest.length < input.length := by
  induction input generalizing quote seen with
  | nil => cases h
  | cons b input ih =>
    rw [untilTagEnd.eq_def] at h
    simp only at h
    split at h
    · have := ih h
      simp only [List.length_cons]
      omega
    · split at h
      · cases h
        simp
      · split at h <;>
        · have := ih h
          simp only [List.length_cons]
          omega

theorem length_of_untilBalanced {depth : Nat} {seen input content rest : List UInt8}
    (h : untilBalanced depth seen input = some (content, rest)) : rest.length < input.length := by
  induction input generalizing depth seen with
  | nil => cases h
  | cons b input ih =>
    rw [untilBalanced.eq_def] at h
    simp only at h
    split at h
    · split at h
      · cases h
        simp
      · have := ih h
        simp only [List.length_cons]
        omega
    · split at h <;>
      · have := ih h
        simp only [List.length_cons]
        omega

theorem length_of_bang {input rest : List UInt8} {token : Token}
    (h : bang input = .ok (token, rest)) : rest.length < input.length := by
  unfold bang at h
  split at h
  · split at h
    · unfold cdataSection at h
      split at h
      · next hc =>
        split at h
        · cases h
          exact length_of_untilClose hc
        · cases h
      · cases h
    · split at h
      · unfold comment at h
        split at h
        · next hc =>
          split at h
          · cases h
            exact length_of_untilClose hc
          · cases h
        · cases h
      · split at h
        · unfold doctype at h
          split at h
          · next hc =>
            split at h
            · split at h
              · cases h
              · cases h
                exact length_of_untilBalanced hc
            · cases h
          · cases h
        · cases h
  · cases h

theorem length_of_instruction {input rest : List UInt8} {token : Token}
    (h : instruction input = .ok (token, rest)) : rest.length < input.length := by
  unfold instruction at h
  split at h
  · next hc =>
    split at h
    · cases h
      exact length_of_untilClose hc
    · cases h
  · cases h

theorem length_of_endTag {input rest : List UInt8} {token : Token}
    (h : endTag input = .ok (token, rest)) : rest.length < input.length := by
  unfold endTag at h
  split at h
  · next hc =>
    cases h
    exact length_of_untilTagEnd hc
  · cases h

theorem length_of_startTag {input rest : List UInt8} {token : Token}
    (h : startTag input = .ok (token, rest)) : rest.length < input.length := by
  unfold startTag at h
  split at h
  · next hc =>
    split at h <;>
    · cases h
      exact length_of_untilTagEnd hc
  · cases h

theorem length_of_markup {input rest : List UInt8} {token : Token}
    (h : markup input = .ok (token, rest)) : rest.length < input.length := by
  unfold markup at h
  split at h
  · cases h
  · split at h
    · exact length_of_bang h
    · split at h
      · exact length_of_instruction h
      · split at h
        · have := length_of_endTag h
          simp only [List.length_cons]
          omega
        · exact length_of_startTag h

theorem length_of_textReference {input rest : List UInt8} {token : Token}
    (h : textReference input = .ok (token, rest)) : rest.length < input.length := by
  have hd := (List.dropWhile_suffix isReferenceByte (l := input)).length_le
  unfold textReference at h
  split at h
  · cases h
  · next heq =>
    rw [heq] at hd
    split at h
    · cases h
      simp at hd
      omega
    · cases h

theorem length_of_next {input rest : List UInt8} {token : Token}
    (h : next input = .ok (some (token, rest))) : rest.length < input.length := by
  unfold next at h
  split at h
  · cases h
  · next b input =>
    split at h
    · cases hm : markup input with
      | error e =>
        rw [hm] at h
        cases h
      | ok p =>
        rw [hm] at h
        cases h
        have := length_of_markup hm
        simp only [List.length_cons]
        omega
    · split at h
      · cases hm : textReference input with
        | error e =>
          rw [hm] at h
          cases h
        | ok p =>
          rw [hm] at h
          cases h
          have := length_of_textReference hm
          simp only [List.length_cons]
          omega
      · have hd := (List.dropWhile_suffix isTextByte (l := input)).length_le
        cases h
        simp only [List.length_cons]
        omega

end Token
end Xml
end Waybind
