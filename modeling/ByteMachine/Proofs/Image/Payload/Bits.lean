import ByteMachine.Proofs.Image.Payload
import Mathlib.Data.Bool.AllAny

/-!
This module contains payloads as streams of bits, the most significant bit of each byte and of each
symbol first. Packing and unpacking keep the stream: a group of three bytes and its four symbols
are the same 24 bits.
-/

namespace ByteMachine
namespace Payload

def alphabet : List Char :=
  "ABCDEFGHIJKLMNOPQRSTUVWXYZabcdefghijklmnopqrstuvwxyz0123456789-_".toList

def sextet (symbol : Char) : BitVec 6 :=
  .ofNat 6 (alphabet.idxOf symbol)

def bits (x : BitVec w) : List Bool :=
  (List.range w).map x.getMsbD

def octets (bytes : List UInt8) : List Bool :=
  bytes.flatMap fun byte => bits byte.toBitVec

def sextets (symbols : List Char) : List Bool :=
  symbols.flatMap fun symbol => bits (sextet symbol)

@[simp]
theorem length_bits (x : BitVec w) : (bits x).length = w := by
  simp [bits]

theorem bits_inj {x y : BitVec w} (same : bits x = bits y) : x = y := by
  apply BitVec.eq_of_getMsbD_eq
  intro i bound
  exact List.map_inj_left.1 same i (List.mem_range.2 bound)

section FixedWidth

variable {f : α → List β} {width : Nat} (each : ∀ a, (f a).length = width)
include each

theorem length_flatMap_of_width (list : List α) :
    (list.flatMap f).length = width * list.length := by
  simp [List.length_flatMap, each, Nat.mul_comm]

theorem flatMap_take (list : List α) (n : Nat) :
    (list.take n).flatMap f = (list.flatMap f).take (width * n) := by
  induction list generalizing n with
  | nil => simp
  | cons a list ih =>
    cases n with
    | zero => simp
    | succ n =>
      have beyond : width * (n + 1) = (f a).length + width * n := by
        rw [each, Nat.mul_succ, Nat.add_comm]
      rw [List.take_succ_cons, List.flatMap_cons, List.flatMap_cons, beyond,
        List.take_length_add_append, ih]

theorem eq_of_flatMap_eq {first second : List α} (positive : 0 < width)
    (injective : ∀ a ∈ first, ∀ b ∈ second, f a = f b → a = b)
    (same : first.flatMap f = second.flatMap f) : first = second := by
  have lengths : first.length = second.length := by
    apply Nat.eq_of_mul_eq_mul_left positive
    rw [← length_flatMap_of_width each, ← length_flatMap_of_width each, same]
  induction first generalizing second with
  | nil => exact (List.length_eq_zero_iff.1 lengths.symm).symm
  | cons a first ih =>
    cases second with
    | nil => contradiction
    | cons b second =>
      rw [List.flatMap_cons, List.flatMap_cons] at same
      obtain ⟨head, tail⟩ := List.append_inj same (by rw [each, each])
      rw [injective a (by simp) b (by simp) head, ih _ tail (Nat.succ.inj lengths)]
      intro c hc d hd
      exact injective c (List.mem_cons_of_mem a hc) d (List.mem_cons_of_mem b hd)

end FixedWidth

theorem length_octets (bytes : List UInt8) : (octets bytes).length = 8 * bytes.length :=
  length_flatMap_of_width (fun _ => length_bits _) bytes

theorem length_sextets (symbols : List Char) : (sextets symbols).length = 6 * symbols.length :=
  length_flatMap_of_width (fun _ => length_bits _) symbols

theorem octets_append (first second : List UInt8) :
    octets (first ++ second) = octets first ++ octets second :=
  List.flatMap_append

theorem sextets_append (first second : List Char) :
    sextets (first ++ second) = sextets first ++ sextets second :=
  List.flatMap_append

theorem octets_take (bytes : List UInt8) (n : Nat) :
    octets (bytes.take n) = (octets bytes).take (8 * n) :=
  flatMap_take (fun _ => length_bits _) bytes n

theorem sextets_take (symbols : List Char) (n : Nat) :
    sextets (symbols.take n) = (sextets symbols).take (6 * n) :=
  flatMap_take (fun _ => length_bits _) symbols n

theorem octets_inj {first second : List UInt8} :
    octets first = octets second ↔ first = second := by
  constructor
  . intro same
    apply eq_of_flatMap_eq (fun _ => length_bits _) (by decide) _ same
    intro a _ b _ equal
    exact UInt8.toBitVec_inj.1 (bits_inj equal)
  . rintro rfl
    rfl

def widen (x : BitVec 6) : UInt8 :=
  ⟨x.setWidth 8⟩

@[simp]
theorem widen_zero : widen 0#6 = 0 := rfl

theorem symbol_sextet : ∀ c ∈ alphabet, symbol (widen (sextet c)) = c :=
  List.all_iff_forall_prop.1 (by decide +kernel)

theorem sextet_inj {c d : Char} (known : c ∈ alphabet) (known' : d ∈ alphabet)
    (same : sextet c = sextet d) : c = d := by
  rw [← symbol_sextet c known, same, symbol_sextet d known']

theorem sextets_inj {first second : List Char} (known : ∀ c ∈ first, c ∈ alphabet)
    (known' : ∀ c ∈ second, c ∈ alphabet) (same : sextets first = sextets second) :
    first = second := by
  apply eq_of_flatMap_eq (fun _ => length_bits _) (by decide) _ same
  intro c hc d hd equal
  exact sextet_inj (known c hc) (known' d hd) (bits_inj equal)

theorem value?_eq (c : Char) :
    value? c = if c ∈ alphabet then some (widen (sextet c)) else none := by
  -- The ranges hold ASCII only, where both sides can be compared one by one.
  have ascii : ∀ n : Fin 128, value? (Char.ofNat n) =
      if Char.ofNat n ∈ alphabet then some (widen (sextet (Char.ofNat n))) else none := by
    decide +kernel
  have low : ∀ c ∈ alphabet, c.toNat < 128 := List.all_iff_forall_prop.1 (by decide)
  by_cases small : c.toNat < 128
  . simpa using ascii ⟨c.toNat, small⟩
  . have above : ∀ d : Char, d.toNat < 128 → ¬c ≤ d := by
      intro d bound le
      exact small (Nat.lt_of_le_of_lt le bound)
    have other : ∀ d : Char, d.toNat < 128 → c ≠ d := by
      rintro d bound rfl
      exact small bound
    have unknown : c ∉ alphabet := fun mem => small (low c mem)
    rw [value?, if_neg (by simp [above]), if_neg (by simp [above]), if_neg (by simp [above]),
      if_neg (other '-' (by decide)), if_neg (other '_' (by decide)), if_neg unknown]

theorem value?_of_mem {c : Char} (known : c ∈ alphabet) : value? c = some (widen (sextet c)) := by
  rw [value?_eq, if_pos known]

theorem value?_eq_some_iff {c : Char} {value : UInt8} :
    value? c = some value ↔ c ∈ alphabet ∧ value = widen (sextet c) := by
  rw [value?_eq, Option.ite_none_right_eq_some, Option.some.injEq, eq_comm (a := value)]

theorem dot_not_mem : '.' ∉ alphabet := by
  decide

theorem bits_byte (b : UInt8) :
    bits b.toBitVec = [b.toBitVec.getLsbD 7, b.toBitVec.getLsbD 6, b.toBitVec.getLsbD 5,
      b.toBitVec.getLsbD 4, b.toBitVec.getLsbD 3, b.toBitVec.getLsbD 2, b.toBitVec.getLsbD 1,
      b.toBitVec.getLsbD 0] := rfl

theorem bits_sextet (x : BitVec 6) :
    bits x =
      [x.getLsbD 5, x.getLsbD 4, x.getLsbD 3, x.getLsbD 2, x.getLsbD 1, x.getLsbD 0] := rfl

theorem octets_unpack (p q r s : BitVec 6) :
    octets (unpack (widen p) (widen q) (widen r) (widen s)) =
      bits p ++ bits q ++ bits r ++ bits s := by
  simp [octets, unpack, bits_byte, bits_sextet, widen]

theorem symbols_known (a b c : UInt8) : ∀ d ∈ symbols a b c, d ∈ alphabet := by
  intro d mem
  have valued : value? d ∈ (symbols a b c).map value? := List.mem_map_of_mem mem
  rw [value?_symbols] at valued
  by_contra unknown
  rw [value?_eq, if_neg unknown] at valued
  simp at valued

theorem sextets_symbols (a b c : UInt8) : sextets (symbols a b c) = octets [a, b, c] := by
  have known := symbols_known a b c
  have values := value?_symbols a b c
  have bytes := unpack_sixths a b c
  simp only [symbols, List.forall_mem_cons] at known
  simp only [symbols, List.map_cons, List.map_nil, List.cons.injEq, and_true] at values
  obtain ⟨first, second, third, fourth, -⟩ := known
  simp only [value?_of_mem first, value?_of_mem second, value?_of_mem third, value?_of_mem fourth,
    Option.some.injEq] at values
  obtain ⟨first, second, third, fourth⟩ := values
  rw [← first, ← second, ← third, ← fourth] at bytes
  rw [← bytes, octets_unpack]
  simp [sextets, symbols]

end Payload
end ByteMachine
