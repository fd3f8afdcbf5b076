/-!
This module contains the logic to read numerals digit by digit and to write bytes as two
upper-case hexadecimal digits.
-/

namespace ByteMachine
namespace Number

def digit? (radix : Nat) (c : Char) : Option Nat :=
  let value :=
    if '0' ≤ c ∧ c ≤ '9' then c.toNat - 48
    else if 'a' ≤ c ∧ c ≤ 'f' then c.toNat - 87
    else if 'A' ≤ c ∧ c ≤ 'F' then c.toNat - 55
    else radix
  if value < radix then some value else none

def ofDigits (radix : Nat) (digits : List Nat) : Nat :=
  digits.foldl (fun n d => n * radix + d) 0

def read? (radix : Nat) (text : List Char) : Option Nat :=
  if text = [] then none else (text.mapM (digit? radix)).map (ofDigits radix)

def toByte? (n : Nat) : Option UInt8 :=
  if n < 256 then some (UInt8.ofNat n) else none

def byte? (text : List Char) : Option UInt8 :=
  match text with
  | '0' :: 'x' :: digits => (read? 16 digits).bind toByte?
  | '0' :: 'X' :: digits => (read? 16 digits).bind toByte?
  | digits => (read? 10 digits).bind toByte?

def hexDigit (n : Nat) : Char :=
  Char.ofNat (if n < 10 then 48 + n else 55 + n)

def hexPair (b : UInt8) : List Char :=
  [hexDigit (b.toNat / 16), hexDigit (b.toNat % 16)]

def hex (b : UInt8) : String :=
  String.ofList (hexPair b)

def hexOfNat (n : Nat) : String :=
  if n < 256 then hex (UInt8.ofNat n) else String.ofList ((Nat.toDigits 16 n).map Char.toUpper)

theorem toByte?_toNat (b : UInt8) : toByte? b.toNat = some b := by
  simp [toByte?, b.toNat_lt]

theorem digit?_hexDigit {n : Nat} (h : n < 16) : digit? 16 (hexDigit n) = some n := by
  revert n
  decide

theorem read?_hexPair (b : UInt8) : read? 16 (hexPair b) = some b.toNat := by
  have high : b.toNat / 16 < 16 := by have := b.toNat_lt; omega
  have low : b.toNat % 16 < 16 := by omega
  simp [read?, hexPair, digit?_hexDigit high, digit?_hexDigit low, ofDigits]
  omega

theorem digit?_of_isDigit {c : Char} (h : c.isDigit) : digit? 10 c = some (c.toNat - 48) := by
  simp only [Char.isDigit, Bool.and_eq_true, decide_eq_true_eq] at h
  have low : '0' ≤ c := h.1
  have high : c ≤ '9' := h.2
  have bound : c.toNat ≤ 57 := h.2
  simp only [digit?, low, high, and_self, if_true]
  rw [if_pos (by omega)]

theorem mapM_digit?_of_isDigit {text : List Char} (h : ∀ c ∈ text, c.isDigit) :
    text.mapM (digit? 10) = some (text.map fun c => c.toNat - 48) := by
  induction text with
  | nil => rfl
  | cons c text ih =>
    rw [List.mapM_cons, digit?_of_isDigit (h c (by simp)), ih fun d hd => h d (by simp [hd])]
    rfl

theorem isDigit_of_mem_toDigits {n : Nat} {c : Char} (mem : c ∈ Nat.toDigits 10 n) : c.isDigit :=
  Nat.isDigit_of_mem_toDigits (by decide) (by decide) mem

theorem read?_toDigits (n : Nat) : read? 10 (Nat.toDigits 10 n) = some n := by
  have digits : ∀ c ∈ Nat.toDigits 10 n, c.isDigit := fun _ mem => isDigit_of_mem_toDigits mem
  have value : ofDigits 10 ((Nat.toDigits 10 n).map fun c => c.toNat - 48) = n := by
    conv => rhs; rw [← Nat.ofDigitChars_ten_toDigits (n := n)]
    rw [ofDigits, List.foldl_map, Nat.ofDigitChars]
    simp only [Nat.mul_comm]
    rfl
  rw [read?, if_neg Nat.toDigits_ne_nil, mapM_digit?_of_isDigit digits, Option.map_some, value]

theorem byte?_toDigits (b : UInt8) : byte? (Nat.toDigits 10 b.toNat) = some b := by
  rw [byte?, read?_toDigits, Option.bind_some, toByte?_toNat]
  . intro rest same
    exact absurd (isDigit_of_mem_toDigits (n := b.toNat) (c := 'x') (by simp [same])) (by decide)
  . intro rest same
    exact absurd (isDigit_of_mem_toDigits (n := b.toNat) (c := 'X') (by simp [same])) (by decide)

end Number
end ByteMachine
