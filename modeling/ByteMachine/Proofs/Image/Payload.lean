import ByteMachine.Byte
import ByteMachine.Image.Payload
import ByteMachine.Memory
import Mathlib.Data.List.DropRight
import Mathlib.Tactic.IntervalCases

/-!
This module contains what a payload keeps: unpacking what was packed gives the bytes back, and the
zeros that are left out at the end do not matter to a memory.
-/

namespace ByteMachine
namespace Payload

theorem value?_symbol {v : UInt8} (six : v &&& 0x3F = v) : value? (symbol v) = some v := by
  revert six
  apply Byte.forall_of_fin _ v
  decide +kernel

theorem symbol_ne {c : Char} (none : value? c = none) (v : UInt8) : symbol v ≠ c := by
  have valued : value? (symbol v) ≠ .none := by
    apply Byte.forall_of_fin _ v
    decide +kernel
  rintro rfl
  contradiction

theorem value?_symbols (a b c : UInt8) :
    (symbols a b c).map value? =
      [some (a >>> 2), some ((a &&& 0x03) <<< 4 ||| b >>> 4),
        some ((b &&& 0x0F) <<< 2 ||| c >>> 6), some (c &&& 0x3F)] := by
  simp only [symbols, List.map_cons, List.map_nil]
  rw [value?_symbol, value?_symbol, value?_symbol, value?_symbol]
  all_goals
    apply Byte.eq_of_bits
    intro i bound
    interval_cases i <;> simp

theorem unpack_sixths (a b c : UInt8) :
    unpack (a >>> 2) ((a &&& 0x03) <<< 4 ||| b >>> 4) ((b &&& 0x0F) <<< 2 ||| c >>> 6)
      (c &&& 0x3F) = [a, b, c] := by
  simp only [unpack, List.cons.injEq, and_true]
  refine ⟨?_, ?_, ?_⟩
  all_goals
    apply Byte.eq_of_bits
    intro i bound
    interval_cases i <;> simp

section Groups

variable {a b c d : Char} {p q r s : UInt8} (first : value? a = some p) (second : value? b = some q)

include first second

theorem group?_of_values (third : value? c = some r) (fourth : value? d = some s) :
    group? a b c d = some (unpack p q r s) := by
  rw [group?, first, second, third, fourth]
  rfl

theorem lastGroup?_of_two : lastGroup? a b '.' '.' = some ((unpack p q 0 0).take 1) := by
  rw [lastGroup?, if_neg (by simp), if_neg (by simp), first, second]
  rfl

theorem lastGroup?_of_three (third : value? c = some r) :
    lastGroup? a b c '.' = some ((unpack p q r 0).take 2) := by
  have symbol : c ≠ '.' := by
    rintro rfl
    contradiction
  rw [lastGroup?, if_neg (by simp), if_pos symbol, first, second, third]
  rfl

end Groups

theorem unpack?_group {a b c d : Char} {bytes : List UInt8} (group : group? a b c d = some bytes)
    (whole : d ≠ '.') (text : List Char) :
    unpack? (a :: b :: c :: d :: text) = (unpack? text).map (bytes ++ ·) := by
  cases text with
  | nil =>
    have last : unpack? [a, b, c, d] = group? a b c d := if_pos whole
    rw [last, group]
    exact congrArg some (List.append_nil bytes).symm
  | cons e text =>
    rw [unpack?, group]
    . cases unpack? (e :: text) <;> rfl
    . simp

theorem unpack?_pack (bytes : List UInt8) : unpack? (pack bytes) = some bytes := by
  fun_induction pack bytes with
  | case1 => rfl
  | case2 a =>
    have values := value?_symbols a 0 0
    have bytes := unpack_sixths a 0 0
    simp only [symbols, List.map_cons, List.map_nil, List.cons.injEq, and_true] at values
    simp only [unpack, List.cons.injEq, and_true] at bytes
    have last := lastGroup?_of_two values.1 values.2.1
    simp only [unpack, List.take_succ_cons, List.take_zero, bytes.1] at last
    exact last
  | case3 a b =>
    have values := value?_symbols a b 0
    have bytes := unpack_sixths a b 0
    simp only [symbols, List.map_cons, List.map_nil, List.cons.injEq, and_true] at values
    simp only [unpack, List.cons.injEq, and_true] at bytes
    have last := lastGroup?_of_three values.1 values.2.1 values.2.2.1
    simp only [unpack, List.take_succ_cons, List.take_zero, bytes.1, bytes.2.1] at last
    exact last
  | case4 a b c rest ih =>
    have values := value?_symbols a b c
    simp only [symbols, List.map_cons, List.map_nil, List.cons.injEq, and_true] at values
    have group := group?_of_values values.1 values.2.1 values.2.2.1 values.2.2.2
    rw [unpack_sixths] at group
    have whole : symbol (c &&& 0x3F) ≠ '.' := symbol_ne rfl _
    have split := unpack?_group group whole (pack rest)
    rw [ih] at split
    exact split

theorem ne_of_mem_pack {separator : Char} (other : separator ≠ '.')
    (none : value? separator = none) {bytes : List UInt8} :
    ∀ c ∈ pack bytes, c ≠ separator := by
  have symbols_ne : ∀ a b c : UInt8, ∀ d ∈ symbols a b c, d ≠ separator := by
    intro a b c d mem
    rw [symbols, List.mem_cons, List.mem_cons, List.mem_cons, List.mem_singleton] at mem
    rcases mem with rfl | rfl | rfl | rfl
    all_goals exact symbol_ne none _
  have dots : ∀ c ∈ ['.', '.'], c ≠ separator := by
    intro c mem
    simp only [List.mem_cons, List.not_mem_nil, or_false, or_self] at mem
    rw [mem]
    exact other.symm
  fun_induction pack bytes with
  | case1 => simp
  | case2 a =>
    intro c mem
    rcases List.mem_append.1 mem with mem | mem
    . exact symbols_ne a 0 0 c (List.mem_of_mem_take mem)
    . exact dots c mem
  | case3 a b =>
    intro c mem
    rcases List.mem_append.1 mem with mem | mem
    . exact symbols_ne a b 0 c (List.mem_of_mem_take mem)
    . exact dots c (by simpa using mem)
  | case4 a b c rest ih =>
    intro d mem
    rcases List.mem_append.1 mem with mem | mem
    . exact symbols_ne a b c d mem
    . exact ih d mem

theorem trimZeros_eq (bytes : List UInt8) : trimZeros bytes = bytes.rdropWhile (· = 0) := rfl

theorem length_trimZeros_le (bytes : List UInt8) : (trimZeros bytes).length ≤ bytes.length := by
  rw [trimZeros_eq]
  exact (List.rdropWhile_prefix _ _).length_le

theorem ofBytes_append_zero (bytes : List UInt8) :
    Memory.ofBytes (bytes ++ [0]) = Memory.ofBytes bytes := by
  apply Memory.ext_get
  intro address
  rw [Memory.get_ofBytes, Memory.get_ofBytes, List.getD_eq_getElem?_getD,
    List.getD_eq_getElem?_getD, List.getElem?_append]
  split
  . rfl
  . next beyond =>
    rw [List.getElem?_eq_none (Nat.le_of_not_lt beyond)]
    cases address.toNat - bytes.length <;> rfl

theorem ofBytes_trimZeros (bytes : List UInt8) :
    Memory.ofBytes (trimZeros bytes) = Memory.ofBytes bytes := by
  induction bytes using List.reverseRecOn with
  | nil => rfl
  | append_singleton bytes b ih =>
    rw [trimZeros_eq] at ih ⊢
    by_cases zero : b = 0
    . rw [List.rdropWhile_concat_pos _ _ _ (by simpa using zero), ih, zero, ofBytes_append_zero]
    . rw [List.rdropWhile_concat_neg _ _ _ (by simpa using zero)]

theorem decode_encode {bytes : List UInt8} (fits : (trimZeros bytes).length ≤ 256) :
    decode (encode bytes) = some (trimZeros bytes) := by
  rw [decode, encode, unpack?_pack, Option.filter_some, if_pos (by simpa using fits)]

end Payload
end ByteMachine
