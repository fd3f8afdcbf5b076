import ByteMachine.Text.Split

/-!
This module contains the laws of cutting a text at separators of which there may be any number, and
of cutting off what is behind the first separator.
-/

namespace ByteMachine
namespace Text

theorem split_eq_splitOnP (isSeparator : Char → Bool) (text : List Char) :
    split isSeparator text = text.splitOnP isSeparator := by
  induction text with
  | nil => rfl
  | cons c text ih =>
    rw [split, ih, List.splitOnP_cons_eq_if_modifyHead]
    cases isSeparator c with
    | true => rfl
    | false =>
      rw [if_neg Bool.false_ne_true, if_neg Bool.false_ne_true]
      cases h : text.splitOnP isSeparator with
      | nil => exact absurd h (List.splitOnP_ne_nil _ _)
      | cons piece pieces => rfl

theorem cut_append_cons {separator : Char} {s : List Char} (h : ∀ c ∈ s, c ≠ separator)
    (rest : List Char) : cut separator (s ++ separator :: rest) = (s, some rest) := by
  have pass : ∀ c ∈ s, decide (c ≠ separator) = true := fun c mem => decide_eq_true (h c mem)
  rw [cut, List.dropWhile_append_of_pos pass, List.takeWhile_append_of_pos pass,
    List.dropWhile_cons_of_neg (by simp), List.takeWhile_cons_of_neg (by simp), List.append_nil]

inductive Joined (isSeparator : Char → Bool) : List (List Char) → List Char → Prop where
  | last (word : List Char) : Joined isSeparator [word] word
  | more {word gap text : List Char} {words : List (List Char)} (apart : gap ≠ [])
    (blank : ∀ c ∈ gap, isSeparator c) (rest : Joined isSeparator words text) :
    Joined isSeparator (word :: words) (word ++ gap ++ text)

section Words

variable {isSeparator : Char → Bool}

theorem words_cons_of_separator {c : Char} (h : isSeparator c) (rest : List Char) :
    words isSeparator (c :: rest) = words isSeparator rest := by
  simp [words, split, h]

theorem words_append_of_separators {gap : List Char} (blank : ∀ c ∈ gap, isSeparator c)
    (rest : List Char) : words isSeparator (gap ++ rest) = words isSeparator rest := by
  induction gap with
  | nil => rfl
  | cons c gap ih =>
    rw [List.cons_append, words_cons_of_separator (blank c (by simp)),
      ih fun d mem => blank d (by simp [mem])]

theorem words_of_separators {gap : List Char} (blank : ∀ c ∈ gap, isSeparator c) :
    words isSeparator gap = [] := by
  have empty := words_append_of_separators blank []
  rw [List.append_nil] at empty
  exact empty

theorem words_append_gap {word : List Char} (h : ∀ c ∈ word, isSeparator c = false)
    (ne : word ≠ []) {gap : List Char} (blank : ∀ c ∈ gap, isSeparator c) {rest : List Char}
    (apart : rest = [] ∨ gap ≠ []) :
    words isSeparator (word ++ gap ++ rest) = word :: words isSeparator rest := by
  cases gap with
  | nil =>
    obtain rfl : rest = [] := by simpa using apart
    rw [List.append_nil, List.append_nil, words_of_forall h ne]
    rfl
  | cons c gap =>
    rw [List.append_assoc, List.cons_append, words_append_cons h ne (blank c (by simp)),
      words_append_of_separators fun d mem => blank d (by simp [mem])]

theorem Joined.words_append {words : List (List Char)} {text : List Char}
    (joined : Joined isSeparator words text)
    (h : ∀ word ∈ words, word ≠ [] ∧ ∀ c ∈ word, isSeparator c = false) {after : List Char}
    (blank : ∀ c ∈ after, isSeparator c) : Text.words isSeparator (text ++ after) = words := by
  induction joined with
  | last word =>
    have single := h word (by simp)
    rw [← List.append_nil (word ++ after), words_append_gap single.2 single.1 blank (.inl rfl)]
    rfl
  | more apart gap rest ih =>
    rw [List.forall_mem_cons] at h
    rw [List.append_assoc, words_append_gap h.1.2 h.1.1 gap (.inr apart), ih h.2]

theorem Joined.mem_or_isSeparator {words : List (List Char)} {text : List Char}
    (joined : Joined isSeparator words text) {c : Char} (mem : c ∈ text) :
    (∃ word ∈ words, c ∈ word) ∨ isSeparator c := by
  induction joined with
  | last word => exact .inl ⟨word, by simp, mem⟩
  | more apart blank rest ih =>
    rw [List.mem_append, List.mem_append] at mem
    rcases mem with (mem | mem) | mem
    . exact .inl ⟨_, by simp, mem⟩
    . exact .inr (blank c mem)
    . rcases ih mem with ⟨word, among, mem⟩ | separator
      . exact .inl ⟨word, by simp [among], mem⟩
      . exact .inr separator

theorem joined_intercalate {gap : List Char} (apart : gap ≠ []) (blank : ∀ c ∈ gap, isSeparator c)
    (word : List Char) (list : List (List Char)) :
    Joined isSeparator (word :: list) (List.intercalate gap (word :: list)) := by
  induction list generalizing word with
  | nil =>
    rw [List.intercalate_singleton]
    exact .last word
  | cons second list ih =>
    rw [List.intercalate_cons_cons]
    exact .more apart blank (ih second)

theorem words_intercalate_append {gap : List Char} (apart : gap ≠ [])
    (between : ∀ c ∈ gap, isSeparator c) {list : List (List Char)}
    (h : ∀ word ∈ list, word ≠ [] ∧ ∀ c ∈ word, isSeparator c = false) {after : List Char}
    (blank : ∀ c ∈ after, isSeparator c) :
    words isSeparator (List.intercalate gap list ++ after) = list := by
  cases list with
  | nil => exact words_of_separators blank
  | cons word list => exact (joined_intercalate apart between word list).words_append h blank

end Words

end Text
end ByteMachine
