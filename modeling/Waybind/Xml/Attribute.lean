import Waybind.Xml.Reference

/-!
This module contains the reading of the attributes of a tag. A tag is given as the bytes between its
angle brackets, without the final slash of an empty element.
-/

namespace Waybind
namespace Xml

def isSpace (b : UInt8) : Bool :=
  b == 0x20 || b == 0x09 || b == 0x0D || b == 0x0A

/--
The part of a qualified name after its first colon, or all of it if there is none.
-/
def localName (name : List UInt8) : List UInt8 :=
  match name.dropWhile (· != ':'.toUInt8) with
  | _ :: rest => rest
  | [] => name

def tagName (tag : List UInt8) : List UInt8 :=
  tag.takeWhile (!isSpace ·)

structure RawAttribute where
  position : Nat
  key : List UInt8
  value : List UInt8
deriving Repr, DecidableEq

namespace RawAttribute

def value? (size : Nat) (input : List UInt8) :
    Except AttributeFault (List UInt8 × List UInt8) :=
  match input.dropWhile isSpace with
  | [] => .error (.expectedValue size)
  | quote :: rest =>
    if quote == '"'.toUInt8 || quote == '\''.toUInt8 then
      match rest.dropWhile (· != quote) with
      | [] => .error (.expectedQuote size (Char.ofNat quote.toNat))
      | _ :: after => .ok (rest.takeWhile (· != quote), after)
    else
      .error (.unquotedValue (size - (rest.length + 1)))

def equals (size : Nat) (input : List UInt8) : Except AttributeFault (List UInt8) :=
  match input.dropWhile isSpace with
  | [] => .error (.expectedEq size)
  | b :: rest =>
    if b == '='.toUInt8 then
      .ok rest
    else
      .error (.expectedEq (size - (rest.length + 1)))

def isKeyByte (b : UInt8) : Bool :=
  b != '='.toUInt8 && !isSpace b

/--
Read the attribute at the beginning of `input`, which is the rest of a tag of `size` bytes. The
attributes before it are in `earlier`. The first byte of a key may be any byte but white space.
-/
def next (size : Nat) (earlier : List RawAttribute) (input : List UInt8) :
    Except AttributeFault (Option (RawAttribute × List UInt8)) :=
  match input.dropWhile isSpace with
  | [] => .ok none
  | b :: rest => do
    let position := size - (rest.length + 1)
    let key := b :: rest.takeWhile isKeyByte
    let rest ← equals size (rest.dropWhile isKeyByte)
    match earlier.find? (·.key == key) with
    | some first => throw (.duplicated position first.position)
    | none =>
      let (value, rest) ← value? size rest
      return some (⟨position, key, value⟩, rest)

def decode (raw : RawAttribute) : Except AttributeFault (String × String) := do
  let name ← (Utf8.decode (localName raw.key)).mapError .name
  let value ← (Utf8.decodeChars raw.value).mapError (.value ∘ .encoding)
  let value ← (Reference.expand value).mapError .value
  return (name, String.ofList value)

theorem length_of_equals {size : Nat} {input rest : List UInt8}
    (h : equals size input = .ok rest) : rest.length < input.length := by
  have hd := (List.dropWhile_suffix isSpace (l := input)).length_le
  unfold equals at h
  split at h
  · cases h
  · next b after heq =>
    rw [heq] at hd
    split at h
    · cases h
      simp at hd
      omega
    · cases h

theorem length_of_value? {size : Nat} {input value rest : List UInt8}
    (h : value? size input = .ok (value, rest)) : rest.length < input.length := by
  have hd := (List.dropWhile_suffix isSpace (l := input)).length_le
  unfold value? at h
  split at h
  · cases h
  · next quote after heq =>
    rw [heq] at hd
    split at h
    · split at h
      · cases h
      · next b tail heq' =>
        have hq := (List.dropWhile_suffix (· != quote) (l := after)).length_le
        rw [heq'] at hq
        cases h
        simp at hd hq
        omega
    · cases h

theorem length_of_next {size : Nat} {earlier : List RawAttribute} {input rest : List UInt8}
    {raw : RawAttribute} (h : next size earlier input = .ok (some (raw, rest))) :
    rest.length < input.length := by
  have hd := (List.dropWhile_suffix isSpace (l := input)).length_le
  unfold next at h
  split at h
  · cases h
  · next b after heq =>
    rw [heq] at hd
    have hk := (List.dropWhile_suffix isKeyByte (l := after)).length_le
    simp only [bind, Except.bind] at h
    split at h
    · cases h
    · next r hr =>
      have hr' := length_of_equals hr
      split at h
      · cases h
      · split at h
        · cases h
        · next v hv =>
          obtain ⟨value, rest'⟩ := v
          have hv' := length_of_value? hv
          cases h
          simp only [List.length_cons] at hd ⊢
          omega

end RawAttribute

/--
Read the attributes in `input`, the rest of a tag of `size` bytes, after those in `earlier`. Each
attribute is decoded before the next one is read.
-/
def tagAttributes.go (size : Nat) (earlier : List RawAttribute) (done : List (String × String))
    (input : List UInt8) : Except AttributeFault (List (String × String)) :=
  match h : RawAttribute.next size earlier input with
  | .error fault => .error fault
  | .ok none => .ok done.reverse
  | .ok (some (raw, rest)) =>
    have := RawAttribute.length_of_next h
    match raw.decode with
    | .error fault => .error fault
    | .ok pair => go size (raw :: earlier) (pair :: done) rest
termination_by input.length

def tagAttributes (tag : List UInt8) : Except AttributeFault (List (String × String)) :=
  tagAttributes.go tag.length [] [] (tag.dropWhile (!isSpace ·))

end Xml
end Waybind
