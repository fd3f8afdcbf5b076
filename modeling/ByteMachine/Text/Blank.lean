/-!
This module contains the blank characters, those with the Unicode property `White_Space`, and
the logic to trim them from both ends of a text.
-/

namespace ByteMachine
namespace Text

/--
The code points with the property `White_Space`, as inclusive ranges.
-/
def blankRanges : List (Nat × Nat) :=
  [(0x09, 0x0D), (0x20, 0x20), (0x85, 0x85), (0xA0, 0xA0), (0x1680, 0x1680), (0x2000, 0x200A),
    (0x2028, 0x2029), (0x202F, 0x202F), (0x205F, 0x205F), (0x3000, 0x3000)]

def isBlank (c : Char) : Bool :=
  blankRanges.any fun (low, high) => low ≤ c.toNat && c.toNat ≤ high

def trim (s : List Char) : List Char :=
  ((s.dropWhile isBlank).reverse.dropWhile isBlank).reverse

@[simp]
theorem trim_nil : trim [] = [] := rfl

theorem trim_cons_of_blank {c : Char} (blank : isBlank c) (s : List Char) :
    trim (c :: s) = trim s := by
  simp [trim, List.dropWhile, blank]

theorem trim_append_of_blank {c : Char} (blank : isBlank c) (s : List Char) :
    trim (s ++ [c]) = trim s := by
  rw [trim, trim, List.dropWhile_append]
  split
  . next none =>
    rw [List.isEmpty_iff] at none
    simp [none, List.dropWhile, blank]
  . rw [List.reverse_append]
    simp [blank]

theorem head?_trim {c : Char} (h : isBlank c = false) (s : List Char) :
    (trim (c :: s)).head? = some c := by
  have front : (c :: s).dropWhile isBlank = c :: s := by simp [List.dropWhile, h]
  rw [trim, front, List.reverse_cons, List.dropWhile_append]
  split
  . simp [List.dropWhile, h]
  . simp

theorem trim_eq_self {s : List Char} (first : ∀ c ∈ s.head?, isBlank c = false)
    (last : ∀ c ∈ s.getLast?, isBlank c = false) : trim s = s := by
  have front : s.dropWhile isBlank = s := by
    cases s with
    | nil => rfl
    | cons c rest => simp [List.dropWhile, first c (by simp)]
  have back : s.reverse.dropWhile isBlank = s.reverse := by
    rw [← List.head?_reverse] at last
    cases h : s.reverse with
    | nil => rfl
    | cons c rest => simp [List.dropWhile, last c (by simp [h])]
  simp [trim, front, back]

end Text
end ByteMachine
