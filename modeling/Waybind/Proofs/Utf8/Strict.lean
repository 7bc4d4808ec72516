import Waybind.Proofs.Except
import Waybind.Proofs.Utf8

/-!
This module contains that strict decoding is the inverse of encoding, and where bytes that are a text
can be cut: before every byte that begins a character.
-/

namespace Waybind
namespace Utf8

section Items

theorem startAt_append (items done : List Item) (pos : Nat) (b : UInt8) :
    startAt (items ++ done) pos b =
      ⟨(startAt items pos b).items ++ done, (startAt items pos b).pending⟩ := by
  unfold startAt
  cases lead pos b with
  | whole c => rfl
  | more pending => rfl
  | never => rfl

theorem step_eq (done : List Item) (pending : Option Pending) (pos : Nat) (b : UInt8) :
    step ⟨done, pending⟩ pos b =
      ⟨(step ⟨[], pending⟩ pos b).items ++ done, (step ⟨[], pending⟩ pos b).pending⟩ := by
  cases pending with
  | none => exact startAt_append [] done pos b
  | some p =>
    simp only [step]
    split
    · split
      · rfl
      · rfl
    · exact startAt_append [.fault ⟨p.start, some p.seen⟩] done pos b

theorem go_eq_append (bytes : List UInt8) (pos : Nat) (done : List Item)
    (pending : Option Pending) :
    items.go bytes pos ⟨done, pending⟩ = done.reverse ++ items.go bytes pos ⟨[], pending⟩ := by
  induction bytes generalizing pos done pending with
  | nil =>
    cases pending with
    | none => rw [items.go, items.go, List.reverse_nil, List.append_nil]
    | some p => simp only [items.go, List.reverse_cons, List.reverse_nil, List.nil_append]
  | cons b bytes ih =>
    rw [items.go, items.go, step_eq, ih, List.reverse_append, List.append_assoc]
    congr 1
    exact (ih _ _ _).symm

theorem exists_of_decodeChars_go {items : List Item} {done cs : List Char}
    (h : decodeChars.go items done = .ok cs) :
    ∃ cs', items = cs'.map .scalar ∧ cs = done.reverse ++ cs' := by
  induction items generalizing done with
  | nil =>
    cases h
    exact ⟨[], rfl, (List.append_nil _).symm⟩
  | cons item items ih =>
    cases item with
    | scalar c =>
      obtain ⟨cs', rfl, rfl⟩ := ih h
      exact ⟨c :: cs', rfl, by simp⟩
    | fault fault => cases h

theorem items_eq_of_decodeChars {bytes : List UInt8} {cs : List Char}
    (h : decodeChars bytes = .ok cs) : items bytes = cs.map .scalar := by
  obtain ⟨cs', hitems, rfl⟩ := exists_of_decodeChars_go h
  exact hitems

end Items

section Completion

/--
However the missing bytes of a begun character are chosen, they complete the bytes `seen` to those of
a character.
-/
def Completes (missing code : Nat) (low high : UInt8) (seen : List UInt8) : Prop :=
  match missing with
  | 0 => False
  | 1 => ∀ b : UInt8, low ≤ b → b ≤ high →
    String.utf8EncodeChar (Char.ofNat (code * 64 + (b.toNat - 0x80))) = seen ++ [b]
  | missing + 2 => ∀ b : UInt8, low ≤ b → b ≤ high →
    Completes (missing + 1) (code * 64 + (b.toNat - 0x80)) 0x80 0xBF (seen ++ [b])

theorem toNat_val_ofNat {n : Nat} (h : n.isValidChar) : (Char.ofNat n).val.toNat = n := by
  rw [Char.ofNat, dif_pos h]
  rfl

theorem ofNat_eq {b : UInt8} {n : Nat} (h : n = b.toNat) : UInt8.ofNat n = b := by
  rw [h, UInt8.ofNat_toNat]

section Lengths

variable {b low high : UInt8} {code : Nat} (hlow : 0x80 ≤ low.toNat) (hhigh : high.toNat ≤ 0xBF)

include hlow hhigh

theorem completes_two (hb : b.toNat = code + 192) (hcode : 2 ≤ code ∧ code < 32) :
    Completes 1 code low high [b] := by
  intro c hc hc'
  rw [UInt8.le_iff_toNat_le] at hc hc'
  have hv := toNat_val_ofNat (n := code * 64 + (c.toNat - 0x80)) (.inl (by omega))
  unfold String.utf8EncodeChar
  simp only [hv]
  rw [if_neg (by omega), if_pos (by omega), ofNat_eq (b := b) (by omega),
    ofNat_eq (b := c) (by omega)]
  rfl

theorem completes_three (hb : b.toNat = code + 224) (hcode : code < 16)
    (hoverlong : code = 0 → 0xA0 ≤ low.toNat) (hsurrogate : code = 13 → high.toNat ≤ 0x9F) :
    Completes 2 code low high [b] := by
  intro c hc hc' d hd hd'
  rw [UInt8.le_iff_toNat_le] at hc hc' hd hd'
  simp only [UInt8.reduceToNat] at hd hd'
  have hv := toNat_val_ofNat (n := (code * 64 + (c.toNat - 0x80)) * 64 + (d.toNat - 0x80))
    (show _ ∨ _ by omega)
  unfold String.utf8EncodeChar
  simp only [hv]
  rw [if_neg (by omega), if_neg (by omega), if_pos (by omega), ofNat_eq (b := b) (by omega),
    ofNat_eq (b := c) (by omega), ofNat_eq (b := d) (by omega)]
  rfl

theorem completes_four (hb : b.toNat = code + 240) (hcode : code ≤ 4)
    (hoverlong : code = 0 → 0x90 ≤ low.toNat) (hlarge : code = 4 → high.toNat ≤ 0x8F) :
    Completes 3 code low high [b] := by
  intro c hc hc' d hd hd' e he he'
  rw [UInt8.le_iff_toNat_le] at hc hc' hd hd' he he'
  simp only [UInt8.reduceToNat] at hd hd' he he'
  have hv := toNat_val_ofNat
    (n := ((code * 64 + (c.toNat - 0x80)) * 64 + (d.toNat - 0x80)) * 64 + (e.toNat - 0x80))
    (show _ ∨ _ by omega)
  unfold String.utf8EncodeChar
  simp only [hv]
  rw [if_neg (by omega), if_neg (by omega), if_neg (by omega), ofNat_eq (b := b) (by omega),
    ofNat_eq (b := c) (by omega), ofNat_eq (b := d) (by omega), ofNat_eq (b := e) (by omega)]
  rfl

end Lengths

theorem completes_of_lead {pos : Nat} {b : UInt8} {p : Pending} (h : lead pos b = .more p) :
    Completes p.missing p.code p.low p.high [b] := by
  rw [lead_eq] at h
  repeat' split at h
  all_goals cases h
  all_goals dsimp only
  · exact completes_two (by decide) (by decide) (by omega) (by omega)
  · exact completes_three (by decide) (by decide) (by omega) (by omega) (by decide) (by decide)
  · exact completes_three (by decide) (by decide) (by omega) (by omega) (by decide) (by decide)
  · exact completes_three (by decide) (by decide) (by omega) (by omega) (by omega) (by omega)
  · exact completes_four (by decide) (by decide) (by omega) (by omega) (by decide) (by decide)
  · exact completes_four (by decide) (by decide) (by omega) (by omega) (by decide) (by decide)
  · exact completes_four (by decide) (by decide) (by omega) (by omega) (by omega) (by omega)

theorem eq_of_lead_whole {pos : Nat} {b : UInt8} {c : Char} (h : lead pos b = .whole c) :
    b.toNat < 128 ∧ c = Char.ofNat b.toNat := by
  rw [lead_eq] at h
  split at h
  · next hb =>
    cases h
    exact ⟨hb, rfl⟩
  · repeat' split at h
    all_goals cases h

def Begun (pending : Option Pending) (seen : List UInt8) : Prop :=
  match pending with
  | none => seen = []
  | some p => Completes p.missing p.code p.low p.high seen

theorem begun_none : Begun none [] :=
  rfl

theorem step_cases {pending : Option Pending} {seen : List UInt8} (hseen : Begun pending seen)
    (pos : Nat) (b : UInt8) :
    (∃ c, step ⟨[], pending⟩ pos b = ⟨[.scalar c], none⟩
        ∧ String.utf8EncodeChar c = seen ++ [b])
      ∨ (∃ p, step ⟨[], pending⟩ pos b = ⟨[], some p⟩ ∧ Begun (some p) (seen ++ [b]))
      ∨ ∃ new fault pending', step ⟨[], pending⟩ pos b = ⟨new ++ [.fault fault], pending'⟩ := by
  cases pending with
  | none =>
    obtain rfl : seen = [] := hseen
    simp only [step, startAt]
    cases hlead : lead pos b with
    | whole c =>
      refine .inl ⟨c, rfl, ?_⟩
      obtain ⟨hb, rfl⟩ := eq_of_lead_whole hlead
      exact encodeChar_ofNat hb
    | more p => exact .inr (.inl ⟨p, rfl, completes_of_lead hlead⟩)
    | never => exact .inr (.inr ⟨[], _, none, rfl⟩)
  | some p =>
    obtain ⟨start, count, missing, code, low, high⟩ := p
    simp only [step]
    split
    · next hrange =>
      rw [Bool.and_eq_true, decide_eq_true_eq, decide_eq_true_eq] at hrange
      rcases missing with _ | _ | missing
      · exact hseen.elim
      · exact .inl ⟨_, rfl, hseen b hrange.1 hrange.2⟩
      · exact .inr (.inl ⟨_, rfl, hseen b hrange.1 hrange.2⟩)
    · exact .inr (.inr ⟨_, _, _, startAt_append [] [.fault ⟨start, some count⟩] pos b⟩)

theorem append_eq_encodeChars {bytes seen : List UInt8} {pos : Nat} {pending : Option Pending}
    {cs : List Char} (hseen : Begun pending seen)
    (h : items.go bytes pos ⟨[], pending⟩ = cs.map .scalar) : seen ++ bytes = encodeChars cs := by
  -- `seen` are the bytes of the first one of `cs` that were taken before
  induction bytes generalizing pos pending seen cs with
  | nil =>
    cases pending with
    | none =>
      obtain rfl : seen = [] := hseen
      obtain rfl : cs = [] := List.map_eq_nil_iff.mp h.symm
      rfl
    | some p =>
      cases cs with
      | nil => cases h
      | cons c cs => cases h
  | cons b bytes ih =>
    rw [items.go] at h
    rcases step_cases hseen pos b with ⟨c, hstep, hc⟩ | ⟨p, hstep, hp⟩ | ⟨new, fault, _, hstep⟩
    · -- the first one of `cs` is complete
      rw [hstep, go_eq_append] at h
      cases cs with
      | nil => cases h
      | cons d cs =>
        obtain ⟨hd, hrest⟩ := List.cons.inj h
        cases hd
        have hbytes : bytes = encodeChars cs := ih begun_none hrest
        rw [encodeChars_cons, hc, hbytes, List.append_assoc, List.singleton_append]
    · rw [hstep] at h
      rw [← ih hp h, List.append_assoc, List.singleton_append]
    · rw [hstep, go_eq_append, List.reverse_append] at h
      cases cs with
      | nil => cases h
      | cons c cs => cases h

theorem decodeChars_eq_ok_iff {bytes : List UInt8} {cs : List Char} :
    decodeChars bytes = .ok cs ↔ bytes = encodeChars cs := by
  constructor
  · intro h
    exact append_eq_encodeChars begun_none (items_eq_of_decodeChars h)
  · rintro rfl
    exact decodeChars_encodeChars cs

theorem decode_eq_ok_iff {bytes : List UInt8} {s : String} :
    decode bytes = .ok s ↔ bytes = encode s := by
  rw [decode, Except.map_eq_ok_iff, encode_eq]
  simp only [decodeChars_eq_ok_iff]
  constructor
  · rintro ⟨cs, rfl, rfl⟩
    rw [String.toList_ofList]
  · rintro rfl
    exact ⟨s.toList, rfl, String.ofList_toList⟩

end Completion

section Boundaries

def IsTail (b : UInt8) : Prop :=
  128 ≤ b.toNat ∧ b.toNat < 192

theorem exists_encodeChar_eq (c : Char) :
    ∃ b tail, String.utf8EncodeChar c = b :: tail ∧ ¬ IsTail b ∧ ∀ b' ∈ tail, IsTail b' := by
  have hvalid : c.val.toNat < 0xD800 ∨ 0xDFFF < c.val.toNat ∧ c.val.toNat < 0x110000 := c.valid
  have htail : ∀ n, IsTail (UInt8.ofNat (n % 64 + 128)) := by
    intro n
    rw [IsTail, toNat_ofNat (by omega)]
    omega
  have hfirst : ∀ n, n < 128 ∨ 192 ≤ n → n < 256 → ¬ IsTail (UInt8.ofNat n) := by
    intro n hn hlt
    rw [IsTail, toNat_ofNat hlt]
    omega
  unfold String.utf8EncodeChar
  simp only
  split_ifs
  · exact ⟨_, _, rfl, hfirst _ (by omega) (by omega), List.forall_mem_nil _⟩
  · exact ⟨_, _, rfl, hfirst _ (by omega) (by omega), List.forall_mem_singleton.mpr (htail _)⟩
  · refine ⟨_, _, rfl, hfirst _ (by omega) (by omega), ?_⟩
    exact List.forall_mem_cons.mpr ⟨htail _, List.forall_mem_singleton.mpr (htail _)⟩
  · refine ⟨_, _, rfl, hfirst _ (by omega) (by omega), ?_⟩
    exact List.forall_mem_cons.mpr ⟨htail _, List.forall_mem_cons.mpr
      ⟨htail _, List.forall_mem_singleton.mpr (htail _)⟩⟩

theorem exists_of_encodeChars_eq_append_of_not_isTail {cs : List Char} {b : UInt8}
    (hb : ¬ IsTail b) {before after : List UInt8} (h : encodeChars cs = before ++ b :: after) :
    ∃ cs₁ cs₂, cs = cs₁ ++ cs₂ ∧ encodeChars cs₁ = before ∧ encodeChars cs₂ = b :: after := by
  induction cs generalizing before with
  | nil =>
    cases before with
    | nil => cases h
    | cons => cases h
  | cons c cs ih =>
    rw [encodeChars_cons, List.append_eq_append_iff] at h
    rcases h with ⟨before', rfl, h⟩ | ⟨bytes, hbytes, h⟩
    · obtain ⟨cs₁, cs₂, rfl, rfl, hcs₂⟩ := ih h
      exact ⟨c :: cs₁, cs₂, rfl, encodeChars_cons c cs₁, hcs₂⟩
    · obtain ⟨first, tail, hc, -, htail⟩ := exists_encodeChar_eq c
      cases before with
      | nil =>
        refine ⟨[], c :: cs, rfl, encodeChars_nil, ?_⟩
        rw [encodeChars_cons, hbytes, List.nil_append, h]
      | cons b' before =>
        -- a byte that begins a character is none of the others of this one
        cases bytes with
        | nil =>
          have hrest : encodeChars cs = [] ++ b :: after := h.symm
          obtain ⟨cs₁, cs₂, rfl, hcs₁, hcs₂⟩ := ih hrest
          refine ⟨c :: cs₁, cs₂, rfl, ?_, hcs₂⟩
          rw [encodeChars_cons, hcs₁, hbytes, List.append_nil, List.append_nil]
        | cons b'' bytes =>
          obtain ⟨rfl, -⟩ := List.cons.inj h
          rw [hc, List.cons_append] at hbytes
          obtain ⟨-, rfl⟩ := List.cons.inj hbytes
          exact absurd (htail b (List.mem_append_right _ List.mem_cons_self)) hb

theorem exists_of_encodeChars_eq_encodeChar_append {cs : List Char} {c : Char}
    {after : List UInt8} (h : encodeChars cs = String.utf8EncodeChar c ++ after) :
    ∃ cs', cs = c :: cs' ∧ encodeChars cs' = after := by
  have hitems : cs.map .scalar =
      .scalar c :: items.go after (0 + (String.utf8EncodeChar c).length) ⟨[], none⟩ := by
    rw [← items_eq_of_decodeChars (decodeChars_encodeChars cs), h, items, go_encodeChar,
      go_eq_append]
    rfl
  cases cs with
  | nil => cases hitems
  | cons d cs =>
    cases (List.cons.inj hitems).1
    exact ⟨cs, rfl, List.append_cancel_left h⟩

theorem exists_of_encodeChars_eq_append {cs part : List Char} {after : List UInt8}
    (h : encodeChars cs = encodeChars part ++ after) :
    ∃ cs', cs = part ++ cs' ∧ encodeChars cs' = after := by
  induction part generalizing cs with
  | nil => exact ⟨cs, rfl, h⟩
  | cons c part ih =>
    rw [encodeChars_cons, List.append_assoc] at h
    obtain ⟨_, rfl, hrest⟩ := exists_of_encodeChars_eq_encodeChar_append h
    obtain ⟨cs', rfl, hafter⟩ := ih hrest
    exact ⟨cs', rfl, hafter⟩

theorem exists_of_encodeChars_eq_append_encodeChar {cs : List Char} {c : Char}
    {before after : List UInt8}
    (h : encodeChars cs = before ++ (String.utf8EncodeChar c ++ after)) :
    ∃ cs₁ cs₂, cs = cs₁ ++ c :: cs₂ ∧ encodeChars cs₁ = before ∧ encodeChars cs₂ = after := by
  obtain ⟨b, tail, hc, hb, -⟩ := exists_encodeChar_eq c
  have hcut : encodeChars cs = before ++ b :: (tail ++ after) := by
    rw [h, hc, List.cons_append]
  obtain ⟨cs₁, cs₂, rfl, hcs₁, hcs₂⟩ := exists_of_encodeChars_eq_append_of_not_isTail hb hcut
  rw [← List.cons_append, ← hc] at hcs₂
  obtain ⟨cs₃, rfl, hcs₃⟩ := exists_of_encodeChars_eq_encodeChar_append hcs₂
  exact ⟨cs₁, cs₃, rfl, hcs₁, hcs₃⟩

end Boundaries
end Utf8
end Waybind
