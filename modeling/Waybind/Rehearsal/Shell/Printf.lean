import Waybind.Rehearsal.Shell.Binary64
import Waybind.Rehearsal.Utility.Echo

/-!
This module contains formatted output: a format with directives, each of which shows an argument.
-/

namespace Waybind
namespace Rehearsal
namespace Shell
namespace Printf

structure Directive where
  left : Bool := false
  zeros : Bool := false
  plus : Bool := false
  space : Bool := false
  alternate : Bool := false
  width : Nat := 0
  precision : Option Nat := none

structure Progress where
  output : List UInt8 := []
  args : List String
  complaints : List String := []

abbrev PrintfM : Type → Type :=
  ExceptT (Option String) (StateM Progress)

def emit (bytes : List UInt8) : PrintfM Unit :=
  modify fun progress => { progress with output := bytes.reverse ++ progress.output }

def emitText (cs : List Char) : PrintfM Unit :=
  emit (Octets.toBytes (String.ofList cs))

def complain (message : String) : PrintfM Unit :=
  modify fun progress => { progress with complaints := message :: progress.complaints }

def nextArgument? : PrintfM (Option String) :=
  modifyGet fun progress =>
    match progress.args with
    | [] => (none, progress)
    | arg :: args => (some arg, { progress with args := args })

def quotedValue? (arg : String) : Option Nat :=
  match arg.toList with
  | '\'' :: rest | '"' :: rest => some ((rest.head?.map Char.toNat).getD 0)
  | _ => none

def judge (arg : String) (rest : List Char) (exceeds : Bool) : PrintfM Unit := do
  if !rest.isEmpty then
    if rest.length == arg.length then
      complain (arg ++ ": expected numeric value")
    else
      complain (arg ++ ": not completely converted")
  else if exceeds then
    complain (arg ++ ": Numerical result out of range")

def nextInteger (isSigned : Bool) : PrintfM Int := do
  match ← nextArgument? with
  | none => return 0
  | some arg =>
    match quotedValue? arg with
    | some value => return value
    | none =>
      let number :=
        if isSigned then Number.signed true arg.toList else Number.unsigned true arg.toList
      judge arg number.rest number.exceeds
      return number.value

def nextBinary64 : PrintfM Binary64 := do
  match ← nextArgument? with
  | none => return .finite false 0 0
  | some arg =>
    match quotedValue? arg with
    | some value => return (Binary64.ofFraction false value 1).1
    | none =>
      let reading := Binary64.read arg.toList
      judge arg reading.rest reading.exceeds
      return reading.value

def pad (directive : Directive) (cs : List Char) : List Char :=
  let missing := List.replicate (directive.width - cs.length) ' '
  if directive.left then cs ++ missing else missing ++ cs

def padDigits (directive : Directive) (withZeros : Bool) (front digits : List Char) : List Char :=
  if withZeros && directive.zeros && !directive.left then
    let missing := directive.width - front.length - digits.length
    front ++ List.replicate missing '0' ++ digits
  else
    pad directive (front ++ digits)

def signOf (directive : Directive) (negative : Bool) : List Char :=
  if negative then ['-']
  else if directive.plus then ['+']
  else if directive.space then [' ']
  else []

def showInteger (directive : Directive) (conversion : Char) (value : Int) : List Char :=
  let magnitude := value.natAbs
  let least := directive.precision.getD 1
  let fill (digits : List Char) : List Char :=
    let digits := if magnitude == 0 then [] else digits
    List.replicate (least - digits.length) '0' ++ digits
  let (front, digits) : List Char × List Char :=
    match conversion with
    | 'd' | 'i' => (signOf directive (decide (value < 0)), fill (Nat.toDigits 10 magnitude))
    | 'u' => ([], fill (Nat.toDigits 10 magnitude))
    | 'o' =>
      let digits := fill (Nat.toDigits 8 magnitude)
      ([], if directive.alternate && digits.head? != some '0' then '0' :: digits else digits)
    | 'x' =>
      (if directive.alternate && magnitude != 0 then ['0', 'x'] else [],
        fill (Nat.toDigits 16 magnitude))
    | _ =>
      (if directive.alternate && magnitude != 0 then ['0', 'X'] else [],
        (fill (Nat.toDigits 16 magnitude)).map Char.toUpper)
  padDigits directive directive.precision.isNone front digits

def showBinary64 (directive : Directive) (conversion : Char) (value : Binary64) : List Char :=
  let text :=
    match value with
    | .infinite negative => pad directive (signOf directive negative ++ "inf".toList)
    | .nan negative => pad directive (signOf directive negative ++ "nan".toList)
    | .finite negative mantissa exponent =>
      let sign := signOf directive negative
      let places := directive.precision.getD 6
      match conversion.toLower with
      | 'f' =>
        padDigits directive true sign (Binary64.fixed mantissa exponent places directive.alternate)
      | 'e' =>
        padDigits directive true sign
          (Binary64.scientific mantissa exponent places directive.alternate)
      | 'g' =>
        padDigits directive true sign
          (Binary64.general mantissa exponent places directive.alternate)
      | _ =>
        padDigits directive true (sign ++ ['0', 'x'])
          (Binary64.hexadecimal mantissa exponent directive.precision directive.alternate)
  if conversion.isUpper then text.map Char.toUpper else text

def showNext (directive : Directive) (conversion : Char) (text : List Char) : PrintfM Unit := do
  let cut (cs : List Char) :=
    match directive.precision with
    | some length => cs.take length
    | none => cs
  match conversion with
  | 's' =>
    let arg := (← nextArgument?).getD ""
    emitText (pad directive (cut arg.toList))
  | 'c' =>
    let arg := (← nextArgument?).getD ""
    emitText (pad directive [arg.toList.headD '\x00'])
  | 'b' =>
    let arg := (← nextArgument?).getD ""
    let (bytes, ended) := Escape.interpret {} [] arg.toList
    emitText (pad directive (cut (Octets.ofBytes bytes).toList))
    if ended then
      throw none
  | 'd' | 'i' =>
    let value ← nextInteger true
    emitText (showInteger directive conversion value)
  | 'o' | 'u' | 'x' | 'X' =>
    let value ← nextInteger false
    emitText (showInteger directive conversion value)
  | c =>
    if ['a', 'e', 'f', 'g'].contains c.toLower then
      let value ← nextBinary64
      emitText (showBinary64 directive conversion value)
    else
      throw (some (String.ofList text ++ ": invalid directive"))

def measure (cs : List Char) : PrintfM (Int × List Char) := do
  match cs with
  | '*' :: rest =>
    let value ← nextInteger true
    return (Int.bmod value 0x100000000, rest)
  | cs =>
    let digits := cs.takeWhile Char.isDigit
    return ((Number.digits 10 0 digits).1, cs.dropWhile Char.isDigit)

def readDirective (cs : List Char) : PrintfM (Directive × List Char) := do
  let isFlag (c : Char) := ['#', '-', '+', ' ', '0'].contains c
  let flags := cs.takeWhile isFlag
  let (width, rest) ← measure (cs.dropWhile isFlag)
  let (precision, rest) ←
    match rest with
    | '.' :: rest =>
      let (places, rest) ← measure rest
      pure (if places < 0 then none else some places.toNat, rest)
    | rest => pure (none, rest)
  let directive : Directive := {
    left := flags.contains '-' || width < 0
    zeros := flags.contains '0'
    plus := flags.contains '+'
    space := flags.contains ' '
    alternate := flags.contains '#'
    width := width.natAbs
    precision := precision }
  return (directive, rest)

def format (fuel : Nat) (cs : List Char) : PrintfM Unit := do
  match fuel, cs with
  | 0, _ | _, [] => return
  | fuel + 1, '\\' :: rest =>
    match Escape.byte? { longOctal := false } rest with
    | some (b, rest) =>
      emit [b]
      format fuel rest
    | none =>
      emitText ['\\']
      format fuel rest
  | fuel + 1, '%' :: '%' :: rest =>
    emitText ['%']
    format fuel rest
  | fuel + 1, '%' :: rest =>
    let (directive, after) ← readDirective rest
    match after with
    | [] => throw (some "missing format character")
    | conversion :: after =>
      let text := '%' :: rest.take (rest.length - after.length)
      showNext directive conversion text
      format fuel after
  | fuel + 1, c :: rest =>
    emitText [c]
    format fuel rest

def formatAll (fuel : Nat) (cs : List Char) : PrintfM Unit := do
  match fuel with
  | 0 => return
  | fuel + 1 =>
    let before := (← get).args.length
    format (cs.length + 1) cs
    let after := (← get).args.length
    if after != 0 && after != before then
      formatAll fuel cs

end Printf
end Shell
end Rehearsal
end Waybind
