import ByteMachine.Byte
import ByteMachine.Text.Percent

/-!
This module contains the round trip of percent coding: decoding what was encoded gives the text
back, and no separator of a query occurs in what was encoded. It also says which texts are percent
codings at all, and that decoding takes these and no others.
-/

namespace ByteMachine
namespace Text

theorem utf8EncodeChar_of_ascii {c : Char} (ascii : c.toNat < 128) :
    String.utf8EncodeChar c = [UInt8.ofNat c.toNat] := by
  have size : c.utf8Size = 1 := by
    rw [Char.utf8Size_eq_one_iff, UInt32.le_iff_toNat_le]
    have : (127 : UInt32).toNat = 127 := rfl
    have : c.val.toNat = c.toNat := rfl
    omega
  rw [String.utf8EncodeChar_eq_singleton size]
  rfl

theorem toUtf8_ofList (text : List Char) :
    toUtf8 (String.ofList text) = text.flatMap String.utf8EncodeChar := by
  rw [toUtf8, String.toByteArray_ofList, List.utf8Encode, List.data_toByteArray]

theorem toUtf8_of_ascii {text : List Char} (ascii : ∀ c ∈ text, c.toNat < 128) :
    toUtf8 (String.ofList text) = text.map fun c => UInt8.ofNat c.toNat := by
  rw [toUtf8_ofList]
  induction text with
  | nil => rfl
  | cons c text ih =>
    rw [List.flatMap_cons, utf8EncodeChar_of_ascii (ascii c (by simp)),
      ih fun d mem => ascii d (by simp [mem])]
    rfl

end Text

namespace Percent

theorem ascii_of_mem_encodeByte {b : UInt8} : ∀ c ∈ encodeByte b, c.toNat < 128 ∧ c ≠ '&' := by
  have all : ((encodeByte b).all fun c => decide (c.toNat < 128 ∧ c ≠ '&')) = true := by
    apply Byte.forall_of_fin _ b
    decide +kernel
  intro c mem
  exact of_decide_eq_true (List.all_eq_true.1 all c mem)

theorem ascii_of_mem_encode {text : List Char} : ∀ c ∈ encode text, c.toNat < 128 ∧ c ≠ '&' := by
  intro c mem
  obtain ⟨b, -, mem⟩ := List.mem_flatMap.1 mem
  exact ascii_of_mem_encodeByte c mem

theorem hexValue?_hexDigit {n : Nat} (h : n < 16) :
    hexValue? (UInt8.ofNat (Number.hexDigit n).toNat) = some n := by
  revert n
  decide

theorem decodeBytes_cons {b : UInt8} (percent : b ≠ 0x25) (rest : List UInt8) :
    decodeBytes (b :: rest) =
      (decodeBytes rest).map ((if b = 0x2B then 0x20 else b) :: ·) := by
  -- the equations of `decodeBytes` tell whether two more bytes follow
  rcases rest with _ | ⟨high, _ | ⟨low, rest⟩⟩
  all_goals simp [decodeBytes, percent]

theorem decodeBytes_unreserved {b : UInt8} (unreserved : isUnreserved b) (rest : List UInt8) :
    decodeBytes (b :: rest) = (decodeBytes rest).map (b :: ·) := by
  have percent : b ≠ 0x25 := by
    rintro rfl
    contradiction
  have plus : b ≠ 0x2B := by
    rintro rfl
    contradiction
  rw [decodeBytes_cons percent, if_neg plus]

theorem decodeBytes_encodeByte (b : UInt8) (rest : List UInt8) :
    decodeBytes ((encodeByte b).map (fun c => UInt8.ofNat c.toNat) ++ rest) =
      (decodeBytes rest).map (b :: ·) := by
  unfold encodeByte
  split
  . next unreserved =>
    have code : UInt8.ofNat (Char.ofNat b.toNat).toNat = b := by
      apply Byte.forall_of_fin _ b
      decide +kernel
    rw [List.map_singleton, List.singleton_append, code, decodeBytes_unreserved unreserved]
  . have bound := b.toNat_lt
    have high := hexValue?_hexDigit (n := b.toNat / 16) (by omega)
    have low := hexValue?_hexDigit (n := b.toNat % 16) (by omega)
    have joined : UInt8.ofNat (b.toNat / 16 * 16 + b.toNat % 16) = b := by
      have same : b.toNat / 16 * 16 + b.toNat % 16 = b.toNat := by omega
      rw [same, UInt8.ofNat_toNat]
    have escape : UInt8.ofNat '%'.toNat = 0x25 := rfl
    simp only [Number.hexPair, List.map_cons, List.map_nil, List.cons_append, List.nil_append,
      escape, decodeBytes, high, low]
    cases decodeBytes rest with
    | none => rfl
    | some bytes => exact congrArg (fun byte => some (byte :: bytes)) joined

theorem decodeBytes_encode (bytes : List UInt8) :
    decodeBytes ((bytes.flatMap encodeByte).map fun c => UInt8.ofNat c.toNat) = some bytes := by
  induction bytes with
  | nil => rfl
  | cons b bytes ih =>
    rw [List.flatMap_cons, List.map_append, decodeBytes_encodeByte, ih]
    rfl

theorem decode_encode (text : String) : decode (encode text.toList) = some text := by
  have ascii : ∀ c ∈ encode text.toList, c.toNat < 128 := by
    intro c mem
    exact (ascii_of_mem_encode c mem).1
  rw [decode, Text.toUtf8_of_ascii ascii, encode, decodeBytes_encode, String.ofList_toList]
  exact Text.ofUtf8?_toUtf8 text

inductive Coded : List UInt8 → List UInt8 → Prop where
  | nil : Coded [] []
  | escape {high low : UInt8} {h l : Nat} {text bytes : List UInt8}
    (upper : hexValue? high = some h) (lower : hexValue? low = some l) (rest : Coded text bytes) :
    Coded (0x25 :: high :: low :: text) (UInt8.ofNat (h * 16 + l) :: bytes)
  | plus {text bytes : List UInt8} (rest : Coded text bytes) : Coded (0x2B :: text) (0x20 :: bytes)
  | plain {b : UInt8} {text bytes : List UInt8} (percent : b ≠ 0x25) (plus : b ≠ 0x2B)
    (rest : Coded text bytes) : Coded (b :: text) (b :: bytes)

theorem Coded.decodeBytes_eq_some {text bytes : List UInt8} (coded : Coded text bytes) :
    decodeBytes text = some bytes := by
  induction coded with
  | nil => rfl
  | escape upper lower rest ih => simp [decodeBytes, upper, lower, ih]
  | plus rest ih =>
    rw [decodeBytes_cons (by decide), ih]
    rfl
  | plain percent plus rest ih =>
    rw [decodeBytes_cons percent, ih, if_neg plus]
    rfl

theorem coded_of_decodeBytes {text bytes : List UInt8} (decoded : decodeBytes text = some bytes) :
    Coded text bytes := by
  fun_induction decodeBytes text generalizing bytes with
  | case1 =>
    obtain rfl := Option.some.inj decoded
    exact .nil
  | case2 high low rest ih =>
    simp only [Option.pure_def, Option.bind_eq_bind, Option.bind_eq_some_iff,
      Option.some.injEq] at decoded
    obtain ⟨h, upper, l, lower, tail, read, rfl⟩ := decoded
    exact .escape upper lower (ih read)
  | case3 => contradiction
  | case4 b rest percent ih =>
    obtain ⟨tail, read, rfl⟩ := Option.map_eq_some_iff.1 decoded
    split
    . next plus =>
      rw [plus]
      exact .plus (ih read)
    . next plus => exact .plain percent plus (ih read)

def Codes (text : List Char) (name : String) : Prop :=
  Coded (Text.toUtf8 (String.ofList text)) (Text.toUtf8 name)

theorem decode_eq_some_iff {text : List Char} {name : String} :
    decode text = some name ↔ Codes text name := by
  simp only [decode, Option.bind_eq_bind, Option.bind_eq_some_iff, Text.ofUtf8?_eq_some_iff]
  constructor
  . rintro ⟨bytes, decoded, rfl⟩
    exact coded_of_decodeBytes decoded
  . intro coded
    exact ⟨_, Coded.decodeBytes_eq_some coded, rfl⟩

theorem decode_eq_none_iff {text : List Char} : decode text = none ↔ ∀ name, ¬Codes text name := by
  simp only [← decode_eq_some_iff, Option.eq_none_iff_forall_ne_some, ne_eq]

end Percent
end ByteMachine
