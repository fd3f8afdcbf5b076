import ByteMachine.Text.Number
import Mathlib.Data.List.Forall2
import Mathlib.Data.List.Induction
import Mathlib.Data.Nat.Digits.Defs

/-!
This module contains numerals, and the proof that reading accepts them and nothing else.
-/

namespace ByteMachine
namespace Number

def Digit (radix : Nat) (c : Char) (value : Nat) : Prop :=
  value < radix ∧ (c = hexDigit value ∨ c = (hexDigit value).toLower)

def Numeral (radix : Nat) (text : List Char) (value : Nat) : Prop :=
  text ≠ [] ∧
    ∃ digits, List.Forall₂ (Digit radix) text digits ∧ Nat.ofDigits radix digits.reverse = value

def Written (text : List Char) (value : Nat) : Prop :=
  Numeral 10 text value ∨
    ∃ digits, (text = '0' :: 'x' :: digits ∨ text = '0' :: 'X' :: digits) ∧ Numeral 16 digits value

theorem digit?_of_digit {radix value : Nat} {c : Char} (small : radix ≤ 16)
    (h : Digit radix c value) : digit? radix c = some value := by
  have all : ∀ radix ≤ 16, ∀ value < radix, digit? radix (hexDigit value) = some value ∧
      digit? radix (hexDigit value).toLower = some value := by
    decide
  have digit := all radix small value h.1
  rcases h.2 with rfl | rfl
  . exact digit.1
  . exact digit.2

theorem digit_of_digit? {radix value : Nat} {c : Char} (h : digit? radix c = some value) :
    Digit radix c value := by
  have numeric : ∀ v < 10, Char.ofNat (v + 48) = hexDigit v := by decide
  have lower : ∀ v < 16, 10 ≤ v → Char.ofNat (v + 87) = (hexDigit v).toLower := by decide
  have upper : ∀ v < 16, 10 ≤ v → Char.ofNat (v + 55) = hexDigit v := by decide
  have code : Char.ofNat c.toNat = c := c.ofNat_toNat
  rw [digit?, Option.ite_none_right_eq_some, Option.some.injEq] at h
  obtain ⟨below, h⟩ := h
  rw [h] at below
  refine ⟨below, ?_⟩
  split at h
  . next within =>
    have low : 48 ≤ c.toNat := within.1
    have high : c.toNat ≤ 57 := within.2
    left
    rw [← numeric value (by omega), ← h, Nat.sub_add_cancel low, code]
  . split at h
    . next within =>
      have low : 97 ≤ c.toNat := within.1
      have high : c.toNat ≤ 102 := within.2
      right
      rw [← lower value (by omega) (by omega), ← h, Nat.sub_add_cancel (by omega), code]
    . split at h
      . next within =>
        have low : 65 ≤ c.toNat := within.1
        have high : c.toNat ≤ 70 := within.2
        left
        rw [← upper value (by omega) (by omega), ← h, Nat.sub_add_cancel (by omega), code]
      . omega

theorem digit?_eq_some_iff {radix value : Nat} {c : Char} (small : radix ≤ 16) :
    digit? radix c = some value ↔ Digit radix c value :=
  ⟨digit_of_digit?, digit?_of_digit small⟩

theorem Digit.toUpper_eq {radix value : Nat} {c : Char} (small : radix ≤ 16)
    (h : Digit radix c value) : c.toUpper = hexDigit value := by
  have all : ∀ value < 16, (hexDigit value).toUpper = hexDigit value ∧
      (hexDigit value).toLower.toUpper = hexDigit value := by
    decide
  have below := h.1
  have upper := all value (by omega)
  rcases h.2 with rfl | rfl
  . exact upper.1
  . exact upper.2

theorem Numeral.toUpper {radix value : Nat} {text : List Char} (small : radix ≤ 16)
    (h : Numeral radix text value) : Numeral radix (text.map Char.toUpper) value := by
  obtain ⟨written, digits, all, value⟩ := h
  refine ⟨by simpa using written, digits, ?_, value⟩
  rw [List.forall₂_map_left_iff]
  exact all.imp fun _ _ digit => ⟨digit.1, .inl (digit.toUpper_eq small)⟩

theorem Written.toUpper {text : List Char} {value : Nat} (h : Written text value) :
    Written (text.map Char.toUpper) value := by
  rcases h with decimal | ⟨digits, marked, hexadecimal⟩
  . exact .inl (decimal.toUpper (by decide))
  . refine .inr ⟨_, .inr ?_, hexadecimal.toUpper (by decide)⟩
    rcases marked with rfl | rfl <;> rfl

theorem mapM_digit?_eq_some_iff {radix : Nat} (small : radix ≤ 16) {text : List Char}
    {digits : List Nat} :
    text.mapM (digit? radix) = some digits ↔ List.Forall₂ (Digit radix) text digits := by
  induction text generalizing digits with
  | nil =>
    rw [List.forall₂_nil_left_iff, List.mapM_nil]
    simp [eq_comm]
  | cons c text ih =>
    rw [List.mapM_cons, List.forall₂_cons_left_iff]
    simp only [← digit?_eq_some_iff small, ← ih]
    cases digit? radix c <;> cases text.mapM (digit? radix) <;> simp [eq_comm]

theorem ofDigits_eq (radix : Nat) (digits : List Nat) :
    ofDigits radix digits = Nat.ofDigits radix digits.reverse := by
  induction digits using List.reverseRecOn with
  | nil => rfl
  | append_singleton digits d ih =>
    rw [ofDigits, List.foldl_append, ← ofDigits, ih]
    simp [Nat.ofDigits_cons, Nat.mul_comm, Nat.add_comm]

theorem read?_eq_some_iff {radix : Nat} (small : radix ≤ 16) {text : List Char} {value : Nat} :
    read? radix text = some value ↔ Numeral radix text value := by
  rw [read?, Numeral]
  split
  . next empty => simp [empty]
  . next written =>
    simp only [Option.map_eq_some_iff, mapM_digit?_eq_some_iff small, ofDigits_eq, ne_eq, written,
      not_false_eq_true, true_and]

theorem toByte?_eq_some_iff {n : Nat} {b : UInt8} : toByte? n = some b ↔ n = b.toNat := by
  constructor
  . intro h
    rw [toByte?] at h
    split at h
    . next below =>
      cases h
      rw [UInt8.toNat_ofNat', Nat.mod_eq_of_lt below]
    . cases h
  . rintro rfl
    exact toByte?_toNat b

theorem readByte?_eq_some_iff {radix : Nat} (small : radix ≤ 16) {text : List Char} {b : UInt8} :
    (read? radix text).bind toByte? = some b ↔ Numeral radix text b.toNat := by
  simp only [Option.bind_eq_some_iff, toByte?_eq_some_iff, ← read?_eq_some_iff small]
  constructor
  . rintro ⟨n, read, rfl⟩
    exact read
  . intro read
    exact ⟨_, read, rfl⟩

theorem not_numeral_ten {c : Char} (mark : c = 'x' ∨ c = 'X') {digits : List Char} {value : Nat} :
    ¬Numeral 10 ('0' :: c :: digits) value := by
  rintro ⟨-, _, all, -⟩
  obtain ⟨_, _, -, rest, -⟩ := List.forall₂_cons_left_iff.1 all
  obtain ⟨d, _, ⟨below, digit⟩, -, -⟩ := List.forall₂_cons_left_iff.1 rest
  have none : ∀ d < 10, ¬('x' = hexDigit d ∨ 'x' = (hexDigit d).toLower) ∧
      ¬('X' = hexDigit d ∨ 'X' = (hexDigit d).toLower) := by
    decide
  rcases mark with rfl | rfl
  . exact (none d below).1 digit
  . exact (none d below).2 digit

theorem byte?_eq_some_iff {text : List Char} {b : UInt8} :
    byte? text = some b ↔ Written text b.toNat := by
  rw [byte?.eq_def, Written]
  split
  . next digits =>
    simp [readByte?_eq_some_iff, not_numeral_ten]
  . next digits =>
    simp [readByte?_eq_some_iff, not_numeral_ten]
  . next lower upper =>
    rw [readByte?_eq_some_iff (by decide), iff_self_or]
    rintro ⟨digits, rfl | rfl, -⟩
    . exact absurd rfl (lower digits)
    . exact absurd rfl (upper digits)

instance (text : List Char) (b : UInt8) : Decidable (Written text b.toNat) :=
  decidable_of_iff _ byte?_eq_some_iff

def writtenByte? (text : List Char) : Option UInt8 :=
  ((List.range 256).map UInt8.ofNat).find? fun b => Written text b.toNat

theorem written_of_writtenByte? {text : List Char} {b : UInt8}
    (found : writtenByte? text = some b) : Written text b.toNat := by
  rw [writtenByte?] at found
  have written := List.find?_some found
  exact of_decide_eq_true written

theorem writtenByte?_eq_some_iff {text : List Char} {b : UInt8} :
    writtenByte? text = some b ↔ Written text b.toNat := by
  refine ⟨written_of_writtenByte?, ?_⟩
  intro written
  have mem : b ∈ (List.range 256).map UInt8.ofNat :=
    List.mem_map.2 ⟨b.toNat, List.mem_range.2 b.toNat_lt, UInt8.ofNat_toNat⟩
  cases found : writtenByte? text with
  | none => exact absurd (decide_eq_true written) (List.find?_eq_none.1 found b mem)
  | some other =>
    -- a text is read in one way only
    have same := byte?_eq_some_iff.2 (written_of_writtenByte? found)
    rw [← same, byte?_eq_some_iff.2 written]

theorem byte?_eq_writtenByte? (text : List Char) : byte? text = writtenByte? text := by
  apply Option.ext
  intro b
  rw [byte?_eq_some_iff, writtenByte?_eq_some_iff]

theorem exists_written_iff {text : List Char} :
    (∃ n ≤ 255, Written text n) ↔ ∃ b, byte? text = some b := by
  simp only [byte?_eq_some_iff]
  constructor
  . rintro ⟨n, small, written⟩
    refine ⟨UInt8.ofNat n, ?_⟩
    rw [UInt8.toNat_ofNat', Nat.mod_eq_of_lt (by omega)]
    exact written
  . rintro ⟨b, written⟩
    exact ⟨b.toNat, Nat.le_of_lt_succ b.toNat_lt, written⟩

theorem forall_written_iff {texts : List (List Char)} :
    (∀ text ∈ texts, ∃ n ≤ 255, Written text n) ↔
      ∃ bytes, List.Forall₂ (fun text byte => byte? text = some byte) texts bytes := by
  simp only [exists_written_iff]
  induction texts with
  | nil => simp
  | cons text texts ih =>
    simp only [List.forall_mem_cons, ih, List.forall₂_cons_left_iff]
    constructor
    . rintro ⟨⟨b, first⟩, bytes, rest⟩
      exact ⟨_, b, bytes, first, rest, rfl⟩
    . rintro ⟨_, b, bytes, first, rest, rfl⟩
      exact ⟨⟨b, first⟩, bytes, rest⟩

end Number
end ByteMachine
