/-!
This module contains the logic to cut a text at separators, into words and into lines.
-/

namespace ByteMachine
namespace Text

def split (isSeparator : Char → Bool) : List Char → List (List Char)
  | [] => [[]]
  | c :: rest =>
    if isSeparator c then
      [] :: split isSeparator rest
    else
      match split isSeparator rest with
      | [] => [[c]]
      | piece :: pieces => (c :: piece) :: pieces

def words (isSeparator : Char → Bool) (s : List Char) : List (List Char) :=
  (split isSeparator s).filter (· ≠ [])

/--
The lines of a text. A line ends at a line feed, together with one carriage return right before
it; what follows the last line feed is a line unless it is empty.
-/
def lines : List Char → List (List Char)
  | [] => []
  | c :: rest =>
    if c = '\n' then
      [] :: lines rest
    else if c = '\r' ∧ rest.head? = some '\n' then
      lines rest
    else
      match lines rest with
      | [] => [[c]]
      | line :: more => (c :: line) :: more

def cut (separator : Char) (s : List Char) : List Char × Option (List Char) :=
  match s.dropWhile (· ≠ separator) with
  | [] => (s, none)
  | _ :: rest => (s.takeWhile (· ≠ separator), some rest)

theorem split_of_forall {isSeparator : Char → Bool} {s : List Char}
    (h : ∀ c ∈ s, isSeparator c = false) : split isSeparator s = [s] := by
  induction s with
  | nil => rfl
  | cons c rest ih =>
    simp [split, h c (by simp), ih fun d hd => h d (by simp [hd])]

theorem split_append_cons {isSeparator : Char → Bool} {s : List Char} {sep : Char}
    (h : ∀ c ∈ s, isSeparator c = false) (hsep : isSeparator sep) (rest : List Char) :
    split isSeparator (s ++ sep :: rest) = s :: split isSeparator rest := by
  induction s with
  | nil => simp [split, hsep]
  | cons c s ih =>
    simp [split, h c (by simp), ih fun d hd => h d (by simp [hd])]

theorem split_append_singleton (isSeparator : Char → Bool) {c : Char} (h : isSeparator c = false)
    (s : List Char) : ∃ pieces last,
      split isSeparator s = pieces ++ [last] ∧
      split isSeparator (s ++ [c]) = pieces ++ [last ++ [c]] := by
  induction s with
  | nil => exact ⟨[], [], by simp [split, h]⟩
  | cons d s ih =>
    obtain ⟨pieces, last, before, after⟩ := ih
    simp only [List.cons_append, split, before, after]
    split
    . exact ⟨[] :: pieces, last, rfl, rfl⟩
    . cases pieces with
      | nil => exact ⟨[], d :: last, rfl, rfl⟩
      | cons piece pieces => exact ⟨(d :: piece) :: pieces, last, rfl, rfl⟩

theorem words_of_forall {isSeparator : Char → Bool} {word : List Char}
    (h : ∀ c ∈ word, isSeparator c = false) (ne : word ≠ []) : words isSeparator word = [word] := by
  simp [words, split_of_forall h, ne]

theorem words_append_cons {isSeparator : Char → Bool} {word : List Char} {sep : Char}
    (h : ∀ c ∈ word, isSeparator c = false) (ne : word ≠ []) (hsep : isSeparator sep)
    (rest : List Char) :
    words isSeparator (word ++ sep :: rest) = word :: words isSeparator rest := by
  simp [words, split_append_cons h hsep, ne]

theorem split_intercalate {isSeparator : Char → Bool} {sep : Char} (hsep : isSeparator sep)
    {list : List (List Char)} (h : ∀ piece ∈ list, ∀ c ∈ piece, isSeparator c = false)
    (ne : list ≠ []) : split isSeparator (List.intercalate [sep] list) = list := by
  induction list with
  | nil => contradiction
  | cons piece list ih =>
    rw [List.forall_mem_cons] at h
    cases list with
    | nil =>
      rw [List.intercalate_singleton]
      exact split_of_forall h.1
    | cons second list =>
      rw [List.intercalate_cons_cons, List.append_assoc, List.singleton_append,
        split_append_cons h.1 hsep, ih h.2 (by simp)]

theorem words_intercalate_eq_filter {isSeparator : Char → Bool} {sep : Char}
    (hsep : isSeparator sep) {list : List (List Char)}
    (h : ∀ piece ∈ list, ∀ c ∈ piece, isSeparator c = false) :
    words isSeparator (List.intercalate [sep] list) = list.filter (· ≠ []) := by
  cases list with
  | nil => rfl
  | cons piece list => rw [words, split_intercalate hsep h (by simp)]

theorem words_intercalate {isSeparator : Char → Bool} {sep : Char} (hsep : isSeparator sep)
    {list : List (List Char)} (h : ∀ word ∈ list, ∀ c ∈ word, isSeparator c = false)
    (ne : ∀ word ∈ list, word ≠ []) : words isSeparator (List.intercalate [sep] list) = list := by
  rw [words_intercalate_eq_filter hsep h, List.filter_eq_self]
  simpa using ne

theorem cut_of_forall {separator : Char} {s : List Char} (h : ∀ c ∈ s, c ≠ separator) :
    cut separator s = (s, none) := by
  have none : s.dropWhile (· ≠ separator) = [] := by
    induction s with
    | nil => rfl
    | cons c s ih =>
      rw [List.dropWhile_cons, if_pos (decide_eq_true (h c (by simp)))]
      exact ih fun d hd => h d (by simp [hd])
  rw [cut, none]

theorem lines_cons_ne_nil (c : Char) (rest : List Char) : lines (c :: rest) ≠ [] := by
  induction rest generalizing c with
  | nil =>
    simp only [lines]
    split <;> simp
  | cons d rest ih =>
    rw [lines]
    split
    . simp
    . split
      . exact ih d
      . split <;> simp

theorem lines_append_newline {line : List Char} (h : ∀ c ∈ line, c ≠ '\n')
    (last : line.getLast? ≠ some '\r') (rest : List Char) :
    lines (line ++ '\n' :: rest) = line :: lines rest := by
  induction line with
  | nil => simp [lines]
  | cons c line ih =>
    have hc : c ≠ '\n' := h c (by simp)
    have next : ¬(c = '\r' ∧ (line ++ '\n' :: rest).head? = some '\n') := by
      rintro ⟨rfl, hd⟩
      cases line with
      | nil => simp at last
      | cons d line => exact h d (by simp) (by simpa using hd)
    have more : lines (line ++ '\n' :: rest) = line :: lines rest := by
      apply ih fun d hd => h d (by simp [hd])
      cases line with
      | nil => simp
      | cons d line => simpa [List.getLast?_cons_cons] using last
    rw [List.cons_append, lines, if_neg hc, if_neg next, more]

theorem lines_flatMap_newline {texts : List (List Char)}
    (h : ∀ text ∈ texts, ∀ c ∈ text, c ≠ '\r' ∧ c ≠ '\n') :
    lines (texts.flatMap (· ++ ['\n'])) = texts := by
  induction texts with
  | nil => rfl
  | cons text texts ih =>
    have first := h text (by simp)
    rw [List.flatMap_cons, List.append_assoc, List.singleton_append, lines_append_newline, ih]
    . intro other mem
      exact h other (by simp [mem])
    . intro c mem
      exact (first c mem).2
    . intro last
      exact (first '\r' (List.mem_of_getLast? last)).1 rfl

end Text
end ByteMachine
