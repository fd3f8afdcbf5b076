import ByteMachine.Image.LongForm

/-!
This module contains the rows of a section of the long form: how they are written, which lines they
make, and the tokens that are read back from them.
-/

namespace ByteMachine
namespace LongForm

def numeral (b : UInt8) : List Char :=
  '0' :: 'x' :: Number.hexPair b

theorem byte?_numeral (b : UInt8) : Number.byte? (numeral b) = some b := by
  rw [numeral, Number.byte?, Number.read?_hexPair, Option.bind_some, Number.toByte?_toNat]

theorem mem_numeral {b : UInt8} {c : Char} (mem : c ∈ numeral b) :
    Text.isBlank c = false ∧ c ≠ ',' := by
  have digit : ∀ n, n < 16 →
      Text.isBlank (Number.hexDigit n) = false ∧ Number.hexDigit n ≠ ',' := by decide
  have := b.toNat_lt
  simp only [numeral, Number.hexPair, List.mem_cons, List.not_mem_nil, or_false] at mem
  rcases mem with rfl | rfl | rfl | rfl
  . decide
  . decide
  . exact digit _ (by omega)
  . exact digit _ (by omega)

def rowText (bytes : List UInt8) : List Char :=
  bytes.flatMap fun b => numeral b ++ [',', ' ']

theorem rowText_cons (b : UInt8) (bytes : List UInt8) :
    rowText (b :: bytes) = numeral b ++ ',' :: ' ' :: rowText bytes := by
  simp [rowText]

def rows (bytes : List UInt8) : List (List UInt8) :=
  (List.range ((bytes.length + 15) / 16)).map fun i => (bytes.drop (16 * i)).take 16

theorem flatten_rows (bytes : List UInt8) : (rows bytes).flatten = bytes := by
  have upTo : ∀ n, ((List.range n).map fun i => (bytes.drop (16 * i)).take 16).flatten =
      bytes.take (16 * n) := by
    intro n
    induction n with
    | zero => simp
    | succ n ih => simp [List.range_succ, ih, Nat.mul_succ, List.take_add]
  rw [rows, upTo, List.take_of_length_le]
  omega

theorem encodeRows_eq (bytes : List UInt8) :
    encodeRows bytes = ((rows bytes).map rowText).flatMap line := by
  simp only [encodeRows, rows, List.flatMap_map]
  rfl

def Unbroken (text : List Char) : Prop :=
  ∀ c ∈ text, ¬(c = '\r' ∨ c = '\n')

instance (text : List Char) : Decidable (Unbroken text) :=
  decidable_of_iff ((text.all fun c => c ≠ '\r' && c ≠ '\n') = true) (by simp [Unbroken])

theorem unbroken_flatten (name : List Char) : Unbroken (flatten name) := by
  intro c mem
  obtain ⟨d, -, rfl⟩ := List.mem_map.mp mem
  split
  . decide
  . next other => exact other

theorem flatten_eq_self {text : List Char} (h : Unbroken text) : flatten text = text := by
  rw [flatten, List.map_congr_left (g := id), List.map_id]
  intro c mem
  rw [if_neg (h c mem), id_eq]

theorem unbroken_of_no_blank {text : List Char} (h : ∀ c ∈ text, Text.isBlank c = false) :
    Unbroken text := by
  rintro c mem (rfl | rfl)
  . exact absurd (h _ mem) (by decide)
  . exact absurd (h _ mem) (by decide)

theorem unbroken_rowText (bytes : List UInt8) : Unbroken (rowText bytes) := by
  intro c mem
  obtain ⟨b, -, written⟩ := List.mem_flatMap.mp mem
  rw [List.mem_append] at written
  rcases written with digit | separator
  . exact unbroken_of_no_blank (fun _ mem => (mem_numeral mem).1) c digit
  . revert separator
    simp only [List.mem_cons, List.not_mem_nil, or_false]
    rintro (rfl | rfl) <;> decide

theorem lines_flatMap_line {texts : List (List Char)} (unbroken : ∀ text ∈ texts, Unbroken text) :
    Text.lines (texts.flatMap line) = texts := by
  apply Text.lines_flatMap_newline
  intro text mem c written
  exact not_or.1 (unbroken text mem c written)

namespace Decoder

theorem dropReturn_of_unbroken {text : List Char} (unbroken : Unbroken text) :
    dropReturn text = text := by
  rw [dropReturn, if_neg]
  intro last
  exact unbroken '\r' (List.mem_of_getLast? last) (.inl rfl)

theorem tokens_cons_of_blank {c : Char} (blank : Text.isBlank c) (text : List Char) :
    tokens (c :: text) = tokens text := by
  have other : (c = ',') = False := by
    simp only [eq_iff_iff, iff_false]
    rintro rfl
    revert blank
    decide
  simp only [tokens, Text.split, other, decide_false, Bool.false_eq_true, if_false]
  cases Text.split (· = ',') text with
  | nil => simp [Text.trim, blank]
  | cons piece pieces => rw [List.map_cons, Text.trim_cons_of_blank blank, List.map_cons]

theorem tokens_append_of_blank {c : Char} (blank : Text.isBlank c) (text : List Char) :
    tokens (text ++ [c]) = tokens text := by
  have other : decide (c = ',') = false := by
    rw [decide_eq_false_iff_not]
    rintro rfl
    revert blank
    decide
  obtain ⟨pieces, last, before, after⟩ :=
    Text.split_append_singleton (fun c => decide (c = ',')) other text
  rw [tokens, tokens, before, after]
  simp only [List.map_append, List.map_cons, List.map_nil, Text.trim_append_of_blank blank]

theorem tokens_append_comma {text : List Char} (whole : ∀ c ∈ text, c ≠ ',') (rest : List Char) :
    tokens (text ++ ',' :: rest) = tokens text ++ tokens rest := by
  have other : ∀ c ∈ text, decide (c = ',') = false := by
    intro c mem
    exact decide_eq_false (whole c mem)
  rw [tokens, Text.split_append_cons other (by decide), tokens, Text.split_of_forall other, tokens,
    ← List.filter_append, ← List.map_append, List.singleton_append]

theorem tokens_numeral (b : UInt8) : tokens (numeral b) = [numeral b] := by
  have whole : ∀ c ∈ numeral b, decide (c = ',') = false := by
    intro c mem
    exact decide_eq_false (mem_numeral mem).2
  have trimmed : Text.trim (numeral b) = numeral b := by
    apply Text.trim_eq_self
    . intro c first
      exact (mem_numeral (List.mem_of_mem_head? first)).1
    . intro c last
      exact (mem_numeral (List.mem_of_getLast? last)).1
  rw [tokens, Text.split_of_forall whole, List.map_singleton, trimmed]
  rfl

theorem tokens_rowText (bytes : List UInt8) : tokens (rowText bytes) = bytes.map numeral := by
  induction bytes with
  | nil => rfl
  | cons b bytes ih =>
    rw [rowText_cons, tokens_append_comma fun _ mem => (mem_numeral mem).2, tokens_numeral,
      tokens_cons_of_blank (by decide), ih, List.map_cons, List.singleton_append]

theorem tokens_trim (text : List Char) : tokens (Text.trim text) = tokens text := by
  have front : ∀ s, tokens (s.dropWhile Text.isBlank) = tokens s := by
    intro s
    induction s with
    | nil => rfl
    | cons c s ih =>
      rw [List.dropWhile_cons]
      split
      . next blank => rw [ih, tokens_cons_of_blank blank]
      . rfl
  have back : ∀ s : List Char, tokens (s.dropWhile Text.isBlank).reverse = tokens s.reverse := by
    intro s
    induction s with
    | nil => rfl
    | cons c s ih =>
      rw [List.dropWhile_cons]
      split
      . next blank => rw [ih, List.reverse_cons, tokens_append_of_blank blank]
      . rfl
  rw [Text.trim, back, List.reverse_reverse, front]

end Decoder

end LongForm
end ByteMachine
