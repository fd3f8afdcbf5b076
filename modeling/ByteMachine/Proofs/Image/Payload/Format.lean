import ByteMachine.Proofs.Image.Payload.Bits

/-!
This module contains the format of payloads: whole groups of four symbols, where at the end one or
two dots may stand for symbols. Decoding accepts just the texts of this format that are not too
long, and the bytes it gives hold the bits of the symbols.
-/

namespace ByteMachine
namespace Payload

structure Padded (text symbols : List Char) (dots : Nat) : Prop where
  split : text = symbols ++ List.replicate dots '.'
  few : dots ≤ 2
  known : ∀ c ∈ symbols, c ∈ alphabet
  whole : 4 ∣ text.length

theorem Padded.length_eq {text symbols : List Char} {dots : Nat}
    (padded : Padded text symbols dots) : text.length = symbols.length + dots := by
  rw [padded.split, List.length_append, List.length_replicate]

theorem padded_nil_iff {symbols : List Char} {dots : Nat} :
    Padded [] symbols dots ↔ symbols = [] ∧ dots = 0 := by
  constructor
  . rintro ⟨split, -, -, -⟩
    rw [eq_comm, List.append_eq_nil_iff, List.replicate_eq_nil_iff] at split
    exact split
  . rintro ⟨rfl, rfl⟩
    exact ⟨rfl, by decide, by simp, by simp⟩

section Groups

variable {a b c d : Char} {symbols : List Char} {dots : Nat}

theorem padded_group_iff :
    Padded [a, b, c, d] symbols dots ↔ (∀ e ∈ symbols, e ∈ alphabet) ∧
      (symbols = [a, b, c, d] ∧ dots = 0 ∨ symbols = [a, b, c] ∧ d = '.' ∧ dots = 1 ∨
        symbols = [a, b] ∧ c = '.' ∧ d = '.' ∧ dots = 2) := by
  constructor
  . rintro ⟨split, few, known, -⟩
    refine ⟨known, ?_⟩
    have length := congrArg List.length split
    simp only [List.length_cons, List.length_append, List.length_replicate, List.length_nil]
      at length
    match dots, symbols, few with
    | 0, _, _ => exact .inl ⟨by simpa using split.symm, rfl⟩
    | 1, [p, q, r], _ =>
      simp only [List.replicate_one, List.cons_append, List.nil_append, List.cons.injEq,
        and_true] at split
      exact .inr (.inl ⟨by simp [split], by simp [split], rfl⟩)
    | 2, [p, q], _ =>
      simp only [List.reduceReplicate, List.cons_append, List.nil_append, List.cons.injEq,
        and_true] at split
      exact .inr (.inr ⟨by simp [split], by simp [split], by simp [split], rfl⟩)
  . rintro ⟨known, ⟨rfl, rfl⟩ | ⟨rfl, rfl, rfl⟩ | ⟨rfl, rfl, rfl, rfl⟩⟩
    all_goals exact ⟨rfl, by decide, known, Nat.dvd_refl 4⟩

theorem group?_eq_some_iff {bytes : List UInt8} :
    group? a b c d = some bytes ↔
      (∀ e ∈ [a, b, c, d], e ∈ alphabet) ∧ octets bytes = sextets [a, b, c, d] := by
  have spelled : sextets [a, b, c, d] = octets (unpack (widen (sextet a)) (widen (sextet b))
      (widen (sextet c)) (widen (sextet d))) := by
    simp [octets_unpack, sextets]
  rw [spelled, octets_inj, group?]
  simp only [Option.bind_eq_bind, Option.bind_eq_some_iff, value?_eq_some_iff, Option.pure_def,
    Option.some.injEq, List.forall_mem_cons]
  constructor
  . rintro ⟨_, ⟨first, rfl⟩, _, ⟨second, rfl⟩, _, ⟨third, rfl⟩, _, ⟨fourth, rfl⟩, rfl⟩
    exact ⟨⟨first, second, third, fourth, by simp⟩, rfl⟩
  . rintro ⟨⟨first, second, third, fourth, -⟩, rfl⟩
    exact ⟨_, ⟨first, rfl⟩, _, ⟨second, rfl⟩, _, ⟨third, rfl⟩, _, ⟨fourth, rfl⟩, rfl⟩

theorem exists_group?_of_known (known : ∀ e ∈ [a, b, c, d], e ∈ alphabet) :
    ∃ bytes, group? a b c d = some bytes ∧ octets bytes = sextets [a, b, c, d] := by
  have read := group?_of_values (value?_of_mem (known a (by simp)))
    (value?_of_mem (known b (by simp))) (value?_of_mem (known c (by simp)))
    (value?_of_mem (known d (by simp)))
  exact ⟨_, read, (group?_eq_some_iff.1 read).2⟩

theorem lastGroup?_of_padded (padded : Padded [a, b, c, d] symbols dots) :
    ∃ bytes, lastGroup? a b c d = some bytes ∧
      octets bytes = (sextets symbols).take (8 * (3 - dots)) := by
  obtain ⟨known, ⟨rfl, rfl⟩ | ⟨rfl, rfl, rfl⟩ | ⟨rfl, rfl, rfl, rfl⟩⟩ := padded_group_iff.1 padded
  . have symbol : d ≠ '.' := by
      rintro rfl
      exact dot_not_mem (known '.' (by simp))
    obtain ⟨bytes, read, same⟩ := exists_group?_of_known known
    refine ⟨bytes, (if_pos symbol).trans read, ?_⟩
    rw [same, List.take_of_length_le (by simp [length_sextets])]
  . have read := lastGroup?_of_three (value?_of_mem (known a (by simp)))
      (value?_of_mem (known b (by simp))) (value?_of_mem (known c (by simp)))
    -- A missing symbol counts as zeros, which stand behind all the bits that are taken.
    have spelled : octets (unpack (widen (sextet a)) (widen (sextet b)) (widen (sextet c)) 0) =
        sextets [a, b, c] ++ bits (0 : BitVec 6) := by
      simpa [sextets] using octets_unpack (sextet a) (sextet b) (sextet c) 0
    refine ⟨_, read, ?_⟩
    rw [octets_take, spelled, List.take_append_of_le_length (by simp [length_sextets])]
  . have read := lastGroup?_of_two (value?_of_mem (known a (by simp)))
      (value?_of_mem (known b (by simp)))
    have spelled : octets (unpack (widen (sextet a)) (widen (sextet b)) 0 0) =
        sextets [a, b] ++ (bits (0 : BitVec 6) ++ bits (0 : BitVec 6)) := by
      simpa [sextets] using octets_unpack (sextet a) (sextet b) 0 0
    refine ⟨_, read, ?_⟩
    rw [octets_take, spelled, List.take_append_of_le_length (by simp [length_sextets])]

theorem exists_padded_of_lastGroup? {bytes : List UInt8}
    (read : lastGroup? a b c d = some bytes) :
    ∃ symbols dots, Padded [a, b, c, d] symbols dots := by
  rw [lastGroup?] at read
  split at read
  . have known := (group?_eq_some_iff.1 read).1
    exact ⟨_, _, padded_group_iff.2 ⟨known, .inl ⟨rfl, rfl⟩⟩⟩
  . next dot =>
    rw [ne_eq, not_not] at dot
    split at read
    . simp only [Option.bind_eq_bind, Option.bind_eq_some_iff, value?_eq_some_iff] at read
      obtain ⟨_, ⟨first, -⟩, _, ⟨second, -⟩, _, ⟨third, -⟩, -⟩ := read
      refine ⟨_, _, padded_group_iff.2 ⟨?_, .inr (.inl ⟨rfl, dot, rfl⟩)⟩⟩
      simp [first, second, third]
    . next dot' =>
      rw [ne_eq, not_not] at dot'
      simp only [Option.bind_eq_bind, Option.bind_eq_some_iff, value?_eq_some_iff] at read
      obtain ⟨_, ⟨first, -⟩, _, ⟨second, -⟩, -⟩ := read
      refine ⟨_, _, padded_group_iff.2 ⟨?_, .inr (.inr ⟨rfl, dot', dot, rfl⟩)⟩⟩
      simp [first, second]

end Groups

theorem padded_cons_iff {a b c d : Char} {text symbols : List Char} {dots : Nat}
    (more : text ≠ []) :
    Padded (a :: b :: c :: d :: text) symbols dots ↔
      ∃ rest, symbols = [a, b, c, d] ++ rest ∧ (∀ e ∈ [a, b, c, d], e ∈ alphabet) ∧
        Padded text rest dots := by
  constructor
  . rintro ⟨split, few, known, whole⟩
    have length := congrArg List.length split
    simp only [List.length_cons, List.length_append, List.length_replicate] at length whole
    have := List.length_pos_iff.2 more
    match symbols, (by omega : 4 ≤ symbols.length) with
    | p :: q :: r :: s :: rest, _ =>
      simp only [List.cons_append, List.cons.injEq] at split
      obtain ⟨rfl, rfl, rfl, rfl, split⟩ := split
      refine ⟨rest, rfl, ?_, split, few, ?_, by omega⟩
      . intro e mem
        exact known e (List.mem_append_left rest mem)
      . intro e mem
        exact known e (List.mem_append_right [a, b, c, d] mem)
  . rintro ⟨rest, rfl, known, split, few, known', whole⟩
    refine ⟨by rw [split]; rfl, few, ?_, ?_⟩
    . rw [List.forall_mem_append]
      exact ⟨known, known'⟩
    . simp only [List.length_cons]
      omega

theorem not_dvd_length {text : List Char} (none : text = [] → False)
    (more : ∀ a b c d rest, text = a :: b :: c :: d :: rest → False) : ¬4 ∣ text.length := by
  match text with
  | [] => exact absurd rfl none
  | [a] | [a, b] | [a, b, c] => simp
  | a :: b :: c :: d :: rest => exact absurd rfl (more a b c d rest)

theorem unpack?_of_padded {text symbols : List Char} {dots : Nat}
    (padded : Padded text symbols dots) :
    ∃ bytes, unpack? text = some bytes ∧
      octets bytes = (sextets symbols).take (8 * (3 * text.length / 4 - dots)) := by
  induction text using unpack?.induct generalizing symbols with
  | case1 =>
    obtain ⟨rfl, rfl⟩ := padded_nil_iff.1 padded
    exact ⟨[], rfl, rfl⟩
  | case2 a b c d =>
    have whole : 3 * [a, b, c, d].length / 4 = 3 := by simp
    rw [whole, unpack?]
    exact lastGroup?_of_padded padded
  | case3 a b c d text more ih =>
    obtain ⟨rest, rfl, known, padded⟩ := (padded_cons_iff more).1 padded
    obtain ⟨bytes, read, same⟩ := ih padded
    obtain ⟨first, group, same'⟩ := exists_group?_of_known known
    have symbol : d ≠ '.' := by
      rintro rfl
      exact dot_not_mem (known '.' (by simp))
    have length : 8 * (3 * (a :: b :: c :: d :: text).length / 4 - dots) =
        (sextets [a, b, c, d]).length + 8 * (3 * text.length / 4 - dots) := by
      have := padded.few
      have := padded.whole
      have := List.length_pos_iff.2 more
      simp only [List.length_cons, length_sextets, List.length_nil]
      omega
    refine ⟨first ++ bytes, ?_, ?_⟩
    . rw [unpack?_group group symbol, read, Option.map_some]
    . rw [octets_append, same', same, length, sextets_append, List.take_length_add_append]
  | case4 text none single more => exact absurd padded.whole (not_dvd_length none more)

theorem exists_padded_of_unpack? {text : List Char} {bytes : List UInt8}
    (read : unpack? text = some bytes) : ∃ symbols dots, Padded text symbols dots := by
  induction text using unpack?.induct generalizing bytes with
  | case1 => exact ⟨_, _, padded_nil_iff.2 ⟨rfl, rfl⟩⟩
  | case2 a b c d => exact exists_padded_of_lastGroup? read
  | case3 a b c d text more ih =>
    rw [unpack?.eq_3 a b c d text more] at read
    simp only [Option.bind_eq_bind, Option.bind_eq_some_iff] at read
    obtain ⟨first, group, bytes, rest, -⟩ := read
    have known := (group?_eq_some_iff.1 group).1
    obtain ⟨symbols, dots, padded⟩ := ih rest
    exact ⟨_, dots, (padded_cons_iff more).2 ⟨symbols, rfl, known, padded⟩⟩
  | case4 text none single more =>
    rw [unpack?.eq_4 text none single more] at read
    contradiction

section Padded

variable {text symbols : List Char} {dots : Nat} (padded : Padded text symbols dots)
  {bytes : List UInt8}
include padded

theorem length_of_octets
    (same : octets bytes = (sextets symbols).take (8 * (3 * text.length / 4 - dots))) :
    bytes.length = 3 * text.length / 4 - dots := by
  have length := congrArg List.length same
  have := padded.length_eq
  have := padded.few
  have := padded.whole
  rw [length_octets, List.length_take, length_sextets] at length
  omega

theorem octets_of_unpack? (read : unpack? text = some bytes) :
    bytes.length = 3 * text.length / 4 - dots ∧
      octets bytes = (sextets symbols).take (8 * (3 * text.length / 4 - dots)) := by
  obtain ⟨_, read', same⟩ := unpack?_of_padded padded
  cases read.symm.trans read'
  exact ⟨length_of_octets padded same, same⟩

end Padded

theorem decode_eq_some_iff {text : List Char} {bytes : List UInt8} :
    decode text = some bytes ↔ unpack? text = some bytes ∧ bytes.length ≤ 256 := by
  rw [decode, Option.filter_eq_some_iff, decide_eq_true_eq]

theorem decode_accepts_padded (text : List Char) :
    ((decode text).isSome ↔ ∃ symbols dots,
      Padded text symbols dots ∧ 3 * text.length / 4 - dots ≤ 256) ∧
    ∀ symbols dots bytes, Padded text symbols dots → decode text = some bytes →
      bytes.length = 3 * text.length / 4 - dots ∧
      octets bytes = (sextets symbols).take (8 * (3 * text.length / 4 - dots)) := by
  refine ⟨?_, ?_⟩
  . rw [Option.isSome_iff_exists]
    constructor
    . rintro ⟨bytes, decoded⟩
      obtain ⟨read, room⟩ := decode_eq_some_iff.1 decoded
      obtain ⟨symbols, dots, padded⟩ := exists_padded_of_unpack? read
      rw [(octets_of_unpack? padded read).1] at room
      exact ⟨symbols, dots, padded, room⟩
    . rintro ⟨symbols, dots, padded, room⟩
      obtain ⟨bytes, read, -⟩ := unpack?_of_padded padded
      rw [← (octets_of_unpack? padded read).1] at room
      exact ⟨bytes, decode_eq_some_iff.2 ⟨read, room⟩⟩
  . intro symbols dots bytes padded decoded
    exact octets_of_unpack? padded (decode_eq_some_iff.1 decoded).1

theorem decode_accepts_padded_slack :
    Padded "AQJ.".toList "AQJ".toList 1 ∧ decode "AQJ.".toList = some [1, 2] ∧
      octets [1, 2] = (sextets "AQJ".toList).take 16 := by
  have known : ∀ c ∈ "AQJ".toList, c ∈ alphabet := List.all_iff_forall_prop.1 (by decide)
  have padded : Padded "AQJ.".toList "AQJ".toList 1 := ⟨rfl, by decide, known, by decide⟩
  have decoded : decode "AQJ.".toList = some [1, 2] := by decide
  exact ⟨padded, decoded, ((decode_accepts_padded _).2 _ _ _ padded decoded).2⟩

end Payload
end ByteMachine
