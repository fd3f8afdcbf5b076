import ByteMachine.Proofs.Image.Payload.Format

/-!
This module contains which payloads are canonical. Encoding gives one payload for all bytes that
differ in the zeros at their end only; decoding also accepts payloads that encoding never gives,
those with zeros at the end and those in which the unused bits of the last symbol are not zero.
-/

namespace ByteMachine
namespace Payload

section Padded

variable {text symbols : List Char} {dots : Nat} (padded : Padded text symbols dots)
include padded

theorem Padded.count_dot : text.count '.' = dots := by
  have none : symbols.count '.' = 0 :=
    List.count_eq_zero.2 fun mem => dot_not_mem (padded.known '.' mem)
  rw [padded.split, List.count_append, none, List.count_replicate_self, Nat.zero_add]

theorem Padded.filter_alphabet : text.filter (· ∈ alphabet) = symbols := by
  have all : symbols.filter (· ∈ alphabet) = symbols := by
    rw [List.filter_eq_self]
    intro c mem
    exact decide_eq_true (padded.known c mem)
  rw [padded.split, List.filter_append, all, List.filter_replicate, if_neg (by decide),
    List.append_nil]

end Padded

theorem exists_padded_pack (bytes : List UInt8) :
    ∃ symbols dots, Padded (pack bytes) symbols dots ∧
      sextets symbols = octets bytes ++ List.replicate (2 * dots) false := by
  fun_induction pack bytes with
  | case1 => exact ⟨[], 0, padded_nil_iff.2 ⟨rfl, rfl⟩, rfl⟩
  | case2 a =>
    refine ⟨(symbols a 0 0).take 2, 2, ⟨rfl, by decide, ?_, ?_⟩, ?_⟩
    . intro c mem
      exact symbols_known a 0 0 c (List.mem_of_mem_take mem)
    . exact Nat.dvd_refl 4
    . rw [sextets_take, sextets_symbols]
      rfl
  | case3 a b =>
    refine ⟨(symbols a b 0).take 3, 1, ⟨rfl, by decide, ?_, ?_⟩, ?_⟩
    . intro c mem
      exact symbols_known a b 0 c (List.mem_of_mem_take mem)
    . exact Nat.dvd_refl 4
    . rw [sextets_take, sextets_symbols]
      rfl
  | case4 a b c rest ih =>
    obtain ⟨others, dots, padded, same⟩ := ih
    refine ⟨symbols a b c ++ others, dots, ⟨?_, padded.few, ?_, ?_⟩, ?_⟩
    . rw [padded.split, List.append_assoc]
    . rw [List.forall_mem_append]
      exact ⟨symbols_known a b c, padded.known⟩
    . have := padded.whole
      rw [List.length_append]
      simp only [symbols, List.length_cons, List.length_nil]
      omega
    . rw [sextets_append, sextets_symbols, same, ← List.append_assoc, ← octets_append]
      rfl

theorem drop_bits_eq_replicate_iff {x : BitVec w} {n : Nat} (bound : n ≤ w) :
    (bits x).drop (w - n) = List.replicate n false ↔ ∀ i < n, x.getLsbD i = false := by
  have length : ((bits x).drop (w - n)).length = n := by
    rw [List.length_drop, length_bits]
    omega
  rw [List.eq_replicate_iff, and_iff_right length, bits, ← List.map_drop, List.forall_mem_map,
    List.range_eq_range', List.drop_range']
  simp only [List.mem_range'_1, Nat.zero_add, Nat.mul_one, BitVec.getMsbD]
  constructor
  . intro zero i below
    have bit := zero (w - 1 - i) (by omega)
    rw [decide_eq_true (by omega), Bool.true_and, Nat.sub_sub_self (by omega)] at bit
    exact bit
  . intro zero i within
    rw [zero _ (by omega), Bool.and_false]

theorem sextets_eq_append_iff {text symbols : List Char} {dots : Nat}
    (padded : Padded text symbols dots) {bytes : List UInt8}
    (length : bytes.length = 3 * text.length / 4 - dots)
    (same : octets bytes = (sextets symbols).take (8 * bytes.length)) :
    sextets symbols = octets bytes ++ List.replicate (2 * dots) false ↔
      ∀ c ∈ symbols.getLast?, ∀ i < 2 * dots, (sextet c).getLsbD i = false := by
  have := padded.length_eq
  have := padded.few
  have := padded.whole
  have split : sextets symbols = octets bytes ++ (sextets symbols).drop (8 * bytes.length) := by
    rw [same, List.take_append_drop]
  rw [split, List.append_cancel_left_eq]
  rcases List.eq_nil_or_concat' symbols with rfl | ⟨others, c, rfl⟩
  . have none : dots = 0 := by
      rw [List.length_nil] at *
      omega
    simp [none, sextets]
  . rw [List.length_append, List.length_singleton] at *
    have place : 8 * bytes.length = (sextets others).length + (6 - 2 * dots) := by
      rw [length_sextets]
      omega
    have last : sextets [c] = bits (sextet c) := by simp [sextets]
    rw [place, sextets_append, last, List.drop_length_add_append,
      drop_bits_eq_replicate_iff (by omega)]
    simp

theorem pack_eq_iff {text symbols : List Char} {dots : Nat} (padded : Padded text symbols dots)
    {bytes : List UInt8} (read : unpack? text = some bytes) :
    pack bytes = text ↔ ∀ c ∈ symbols.getLast?, ∀ i < 2 * dots, (sextet c).getLsbD i = false := by
  obtain ⟨length, same⟩ := octets_of_unpack? padded read
  obtain ⟨others, dots', packed, spelled⟩ := exists_padded_pack bytes
  rw [← length] at same
  rw [← sextets_eq_append_iff padded length same]
  constructor
  . rintro rfl
    rw [← padded.filter_alphabet, ← padded.count_dot, packed.filter_alphabet, packed.count_dot]
    exact spelled
  . intro spelled'
    -- The stream has 6 bits for each symbol, 8 for each byte and 2 for each dot.
    have dots_eq : dots' = dots := by
      have lengths := congrArg List.length spelled
      have := packed.length_eq
      have := packed.few
      have := packed.whole
      have := padded.length_eq
      have := padded.few
      have := padded.whole
      rw [length_sextets, List.length_append, length_octets, List.length_replicate] at lengths
      omega
    rw [dots_eq, ← spelled'] at spelled
    rw [packed.split, padded.split, dots_eq, sextets_inj packed.known padded.known spelled]

theorem trimZeros_eq_self_iff {bytes : List UInt8} :
    trimZeros bytes = bytes ↔ bytes.getLast? ≠ some 0 := by
  rw [trimZeros_eq, List.rdropWhile_eq_self_iff]
  cases bytes using List.reverseRecOn <;> simp

theorem decode_encode_eq (bytes : List UInt8) :
    decode (encode bytes) =
      if (trimZeros bytes).length ≤ 256 then some (trimZeros bytes) else none := by
  rw [decode, encode, unpack?_pack, Option.filter_some]
  simp

theorem encoding_is_canonical :
    (∀ first second : List UInt8, encode first = encode second ↔
      first.rdropWhile (· = 0) = second.rdropWhile (· = 0)) ∧
    (∀ bytes : List UInt8, decode (encode bytes) =
      if (bytes.rdropWhile (· = 0)).length ≤ 256 then some (bytes.rdropWhile (· = 0)) else none) ∧
    ∀ (text : List Char) (bytes : List UInt8), decode text = some bytes →
      (encode bytes = text ↔ bytes.getLast? ≠ some 0 ∧
        ∀ c ∈ (text.filter (· ∈ alphabet)).getLast?, ∀ i < 2 * text.count '.',
          (sextet c).getLsbD i = false) ∧
      decode (encode bytes) = some (bytes.rdropWhile (· = 0)) := by
  refine ⟨?_, decode_encode_eq, ?_⟩
  . intro first second
    constructor
    . intro same
      have read := congrArg unpack? same
      rw [encode, encode, unpack?_pack, unpack?_pack, Option.some.injEq] at read
      exact read
    . exact congrArg pack
  . intro text bytes decoded
    obtain ⟨read, room⟩ := decode_eq_some_iff.1 decoded
    obtain ⟨symbols, dots, padded⟩ := exists_padded_of_unpack? read
    have restored : decode (encode bytes) = some (trimZeros bytes) :=
      decode_encode ((length_trimZeros_le bytes).trans room)
    refine ⟨?_, restored⟩
    rw [padded.filter_alphabet, padded.count_dot, ← pack_eq_iff padded read,
      ← trimZeros_eq_self_iff]
    constructor
    . intro same
      rw [same, decoded, Option.some.injEq] at restored
      rw [encode, ← restored] at same
      exact ⟨restored.symm, same⟩
    . rintro ⟨trimmed, packed⟩
      rw [encode, trimmed, packed]

theorem encoding_is_canonical_slack :
    decode "AQJ.".toList = some [1, 2] ∧ encode [1, 2] ≠ "AQJ.".toList ∧
      decode (encode [1, 2]) = some [1, 2] := by
  have decoded : decode "AQJ.".toList = some [1, 2] := by decide
  obtain ⟨canonical, restored⟩ := encoding_is_canonical.2.2 "AQJ.".toList [1, 2] decoded
  refine ⟨decoded, ?_, restored⟩
  rw [ne_eq, canonical]
  rintro ⟨-, zero⟩
  have bit := zero 'J' (by decide) 0 (by decide)
  revert bit
  decide

end Payload
end ByteMachine
