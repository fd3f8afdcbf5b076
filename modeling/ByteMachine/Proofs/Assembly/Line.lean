import ByteMachine.Proofs.Assembly.Operand
import ByteMachine.Proofs.Text.Split

/-!
This module contains the spellings of a line: however a mnemonic and its operands are written, in
either case, with leading zeros, with separators between and around them and with a comment behind,
they are read back.
-/

namespace ByteMachine
namespace Assembly

def Unbroken (c : Char) : Prop :=
  isSeparator c = false ∧ c ≠ ';'

instance : DecidablePred Unbroken :=
  fun c => inferInstanceAs (Decidable (isSeparator c = false ∧ c ≠ ';'))

theorem Plain.unbroken {c : Char} (plain : Plain c) : Unbroken c :=
  ⟨plain.not_isSeparator, plain.ne_of_not_plain (by decide)⟩

theorem unbroken_of_lower {c : Char} (lower : 97 ≤ c.toNat ∧ c.toNat ≤ 122) :
    Unbroken c ∧ Plain c.toUpper := by
  have letters : ∀ n < 123, 97 ≤ n → Unbroken (Char.ofNat n) ∧ Plain (Char.ofNat n).toUpper := by
    decide
  have letter := letters c.toNat (by omega) lower.1
  rw [c.ofNat_toNat] at letter
  exact letter

theorem toUpper_cases (c : Char) : c.toUpper = c ∨ (Unbroken c ∧ Plain c.toUpper) := by
  by_cases lower : 97 ≤ c.toNat ∧ c.toNat ≤ 122
  . exact .inr (unbroken_of_lower lower)
  . exact .inl (dif_neg lower)

theorem unbroken_toUpper_iff {c : Char} : Unbroken c.toUpper ↔ Unbroken c := by
  rcases toUpper_cases c with same | ⟨unbroken, plain⟩
  . rw [same]
  . simp only [unbroken, plain.unbroken]

theorem eq_of_toUpper_eq {c d : Char} (same : c.toUpper = d) (other : ¬Plain d) : c = d := by
  rcases toUpper_cases c with fixed | ⟨-, plain⟩
  . rw [← fixed, same]
  . rw [same] at plain
    contradiction

theorem forall_unbroken_of_upper {text : List Char}
    (upper : ∀ c ∈ text.map Char.toUpper, Unbroken c) : ∀ c ∈ text, Unbroken c := by
  intro c mem
  exact unbroken_toUpper_iff.1 (upper c.toUpper (List.mem_map_of_mem mem))

theorem NameStart.unbroken {c : Char} (start : NameStart c) : Unbroken c := by
  rcases start with upper | lower | rfl
  . exact Plain.unbroken (.inl upper)
  . exact (unbroken_of_lower lower).1
  . decide

inductive Operand.Spells : Operand → List Char → Prop where
  | marked {operand : Operand} {kind : SourceKind} {marker text : List Char}
    (letters : marker.map Char.toUpper = kind.marker) (gives : Gives kind text operand) :
    Spells operand (marker ++ text)
  | label {name : String} (legal : LabelName name.toList) :
    Spells (.label name) (':' :: name.toList)

theorem plain_hexDigit {n : Nat} (small : n < 16) : Plain (Number.hexDigit n) := by
  revert n
  decide

theorem plain_of_digits {radix : Nat} (small : radix ≤ 16) {text : List Char} {digits : List Nat}
    (all : List.Forall₂ (Number.Digit radix) text digits) :
    ∀ c ∈ text.map Char.toUpper, Plain c := by
  induction all with
  | nil => exact List.forall_mem_nil _
  | cons digit rest ih =>
    have below := digit.1
    rw [List.map_cons, List.forall_mem_cons, digit.toUpper_eq small]
    exact ⟨plain_hexDigit (by omega), ih⟩

theorem plain_of_numeral {radix : Nat} (small : radix ≤ 16) {text : List Char} {n : Nat}
    (written : Number.Numeral radix text n) : ∀ c ∈ text.map Char.toUpper, Plain c := by
  obtain ⟨-, digits, all, -⟩ := written
  exact plain_of_digits small all

theorem plain_of_written {text : List Char} {n : Nat} (written : Number.Written text n) :
    ∀ c ∈ text.map Char.toUpper, Plain c := by
  rcases written with decimal | ⟨digits, marked, hexadecimal⟩
  . exact plain_of_numeral (by decide) decimal
  . have plain := plain_of_numeral (by decide) hexadecimal
    rcases marked with rfl | rfl
    . simp only [List.map_cons, List.forall_mem_cons]
      exact ⟨by decide, by decide, plain⟩
    . simp only [List.map_cons, List.forall_mem_cons]
      exact ⟨by decide, by decide, plain⟩

namespace Gives

variable {kind : SourceKind} {text : List Char} {operand : Operand}

theorem toUpper (gives : Gives kind text operand) :
    Gives kind (text.map Char.toUpper) operand := by
  cases gives with
  | constant written => exact .constant written.toUpper
  | register written => exact .register (written.toUpper (by decide))
  | registerMemory written => exact .registerMemory (written.toUpper (by decide))
  | memory written => exact .memory written.toUpper

theorem plain (gives : Gives kind text operand) : ∀ c ∈ text.map Char.toUpper, Plain c := by
  cases gives with
  | constant written | memory written => exact plain_of_written written
  | register written | registerMemory written => exact plain_of_numeral (by decide) written

end Gives

theorem head?_ne_of_numeral {text : List Char} {n : Nat} (written : Number.Numeral 10 text n) :
    (text.map Char.toUpper).head? ≠ some 'M' := by
  have digits : ∀ value < 10, Number.hexDigit value ≠ 'M' := by decide
  obtain ⟨-, _, all, -⟩ := written
  cases all with
  | nil => simp
  | cons digit rest =>
    rw [List.map_cons, List.head?_cons, digit.toUpper_eq (by decide), ne_eq, Option.some.injEq]
    exact digits _ digit.1

theorem find?_marker_of_head?_ne {text : List Char} (head : text.head? ≠ some 'M') :
    SourceKind.inOrder.find? (·.marker.isPrefixOf (SourceKind.register.marker ++ text)) =
      some .register := by
  cases text with
  | nil => rfl
  | cons c rest =>
    have other : c ≠ 'M' := by simpa using head
    simp [SourceKind.inOrder, SourceKind.marker, other.symm]

theorem marked_of_letters {kind : SourceKind} {marker text : List Char} {operand : Operand}
    (letters : marker.map Char.toUpper = kind.marker) (gives : Gives kind text operand) :
    Marked (marker ++ text) kind (text.map Char.toUpper) := by
  have behind : (marker ++ text).map Char.toUpper = kind.marker ++ text.map Char.toUpper := by
    rw [List.map_append, letters]
  refine ⟨?_, behind⟩
  rw [behind]
  cases gives with
  | constant | registerMemory | memory => rfl
  | register written => exact find?_marker_of_head?_ne (head?_ne_of_numeral written)

namespace Operand.Spells

variable {operand : Operand} {token : List Char}

theorem parseOperand_eq (spells : operand.Spells token) : parseOperand token = .ok operand := by
  cases spells with
  | marked letters gives =>
    rw [parseOperand_of_marked (marked_of_letters letters gives), SourceKind.parse_eq_ok_iff]
    exact gives.toUpper
  | label legal => exact parseOperand_of_legal legal

theorem ne_nil (spells : operand.Spells token) : token ≠ [] := by
  cases spells with
  | @marked _ kind marker text letters gives =>
    intro empty
    obtain ⟨rfl, -⟩ := List.append_eq_nil_iff.1 empty
    cases kind <;> cases letters
  | label legal => exact List.cons_ne_nil _ _

theorem unbroken (spells : operand.Spells token) : ∀ c ∈ token, Unbroken c := by
  cases spells with
  | @marked _ kind marker text letters gives =>
    apply forall_unbroken_of_upper
    rw [List.map_append, letters, List.forall_mem_append]
    constructor
    . intro c mem
      exact (kind.plain_spell 0 c (List.mem_append_left _ mem)).unbroken
    . intro c mem
      exact (gives.plain c mem).unbroken
  | label legal =>
    obtain ⟨first, rest, name, start, more⟩ := legal
    rw [name]
    simp only [List.forall_mem_cons]
    refine ⟨by decide, start.unbroken, ?_⟩
    intro c mem
    rcases more c mem with start | digit
    . exact start.unbroken
    . exact Plain.unbroken (.inr digit)

end Operand.Spells

structure IsMnemonic (word : List Char) : Prop where
  ne_nil : word ≠ []
  unbroken : ∀ c ∈ word, Unbroken c
  first : word.head? ≠ some ':'

def IsComment (text : List Char) : Prop :=
  text = [] ∨ ∃ rest, text = ';' :: rest

/--
A line with this mnemonic and these operands in one of their spellings. There are separators between
each two words, and there may be more around them and a comment behind.
-/
inductive SpellsLine (mnemonic : List Char) (operands : List Operand) : List Char → Prop where
  | line {head before body after comment : List Char} {words : List (List Char)}
    (letters : head.map Char.toUpper = mnemonic.map Char.toUpper)
    (spelled : List.Forall₂ Operand.Spells operands words)
    (joined : Text.Joined isSeparator (head :: words) body)
    (ahead : ∀ c ∈ before, isSeparator c) (behind : ∀ c ∈ after, isSeparator c)
    (isComment : IsComment comment) :
    SpellsLine mnemonic operands (before ++ body ++ after ++ comment)

inductive BlankLine : List Char → Prop where
  | line {gap comment : List Char} (blank : ∀ c ∈ gap, isSeparator c)
    (isComment : IsComment comment) : BlankLine (gap ++ comment)

theorem ne_semicolon_of_isSeparator {c : Char} (separator : isSeparator c) : c ≠ ';' := by
  rintro rfl
  contradiction

theorem tokens_append_comment {code comment : List Char} (h : ∀ c ∈ code, c ≠ ';')
    (isComment : IsComment comment) :
    tokens (code ++ comment) = Text.words isSeparator code := by
  rcases isComment with rfl | ⟨rest, rfl⟩
  . rw [List.append_nil, tokens, Text.cut_of_forall h]
  . rw [tokens, Text.cut_append_cons h]

theorem tokens_of_joined {words : List (List Char)} {before body after comment : List Char}
    (joined : Text.Joined isSeparator words body)
    (whole : ∀ word ∈ words, word ≠ [] ∧ ∀ c ∈ word, Unbroken c)
    (ahead : ∀ c ∈ before, isSeparator c) (behind : ∀ c ∈ after, isSeparator c)
    (isComment : IsComment comment) :
    tokens (before ++ body ++ after ++ comment) = words := by
  rw [tokens_append_comment ?_ isComment, List.append_assoc,
    Text.words_append_of_separators ahead, joined.words_append ?_ behind]
  . intro word mem
    exact ⟨(whole word mem).1, fun c inside => ((whole word mem).2 c inside).1⟩
  . simp only [List.forall_mem_append]
    refine ⟨⟨fun c mem => ne_semicolon_of_isSeparator (ahead c mem), ?_⟩,
      fun c mem => ne_semicolon_of_isSeparator (behind c mem)⟩
    intro c mem
    rcases joined.mem_or_isSeparator mem with ⟨word, among, inside⟩ | separator
    . exact ((whole word among).2 c inside).2
    . exact ne_semicolon_of_isSeparator separator

theorem IsMnemonic.of_letters {mnemonic head : List Char} (word : IsMnemonic mnemonic)
    (letters : head.map Char.toUpper = mnemonic.map Char.toUpper) : IsMnemonic head := by
  constructor
  . rintro rfl
    exact word.ne_nil (List.map_eq_nil_iff.1 letters.symm)
  . apply forall_unbroken_of_upper
    rw [letters]
    intro upper mem
    obtain ⟨c, inside, rfl⟩ := List.mem_map.1 mem
    exact unbroken_toUpper_iff.2 (word.unbroken c inside)
  . intro colon
    obtain ⟨rest, rfl⟩ := List.head?_eq_some_iff.1 colon
    obtain ⟨c, _, rfl, same, -⟩ := List.map_eq_cons_iff.1 letters.symm
    obtain rfl : c = ':' := eq_of_toUpper_eq same (by decide)
    exact word.first rfl

section Spelled

variable {operands : List Operand} {words : List (List Char)}
  (spelled : List.Forall₂ Operand.Spells operands words)

include spelled

theorem mapM_parseOperand_of_spells : words.mapM parseOperand = .ok operands := by
  induction spelled with
  | nil => rfl
  | cons first rest ih =>
    rw [List.mapM_cons, first.parseOperand_eq, ih]
    rfl

theorem whole_of_spells : ∀ word ∈ words, word ≠ [] ∧ ∀ c ∈ word, Unbroken c := by
  induction spelled with
  | nil => exact List.forall_mem_nil _
  | cons first rest ih =>
    rw [List.forall_mem_cons]
    exact ⟨⟨first.ne_nil, first.unbroken⟩, ih⟩

end Spelled

theorem parseLine_of_spells {mnemonic line : List Char} {operands : List Operand}
    (word : IsMnemonic mnemonic) (spells : SpellsLine mnemonic operands line) :
    parseLine line =
      .ok (.instruction (String.ofList (mnemonic.map Char.toUpper)) operands) := by
  cases spells with
  | @line head _ _ _ _ words letters spelled joined ahead behind isComment =>
    have first := word.of_letters letters
    have whole : ∀ token ∈ head :: words, token ≠ [] ∧ ∀ c ∈ token, Unbroken c := by
      rw [List.forall_mem_cons]
      exact ⟨⟨first.ne_nil, first.unbroken⟩, whole_of_spells spelled⟩
    rw [parseLine, tokens_of_joined joined whole ahead behind isComment,
      parseTokens_of_head first.first (mapM_parseOperand_of_spells spelled), letters]

theorem parseLine_of_blank {line : List Char} (blank : BlankLine line) :
    parseLine line = .ok .blank := by
  cases blank with
  | line blank isComment =>
    rw [parseLine, tokens_append_comment (fun c mem => ne_semicolon_of_isSeparator (blank c mem))
      isComment, Text.words_of_separators blank]
    rfl

theorem parse_inverts_spelling :
    (∀ (mnemonic line : List Char) (operands : List Operand), IsMnemonic mnemonic →
      SpellsLine mnemonic operands line →
      parseLine line =
        .ok (.instruction (String.ofList (mnemonic.map Char.toUpper)) operands)) ∧
    ∀ line, BlankLine line → parseLine line = .ok .blank := by
  constructor
  . intro mnemonic line operands word spells
    exact parseLine_of_spells word spells
  . intro line blank
    exact parseLine_of_blank blank

def scattered : List Char :=
  " ,mOv\u2003nUm0X0fF,,rM0003\u00a0:top_1\t, ; R9".toList

theorem spellsLine_scattered :
    SpellsLine "Mov".toList [.constant 255, .registerMemory ⟨3⟩, .label "top_1"] scattered := by
  have literal : Number.Written "0X0fF".toList (255 : UInt8).toNat :=
    Number.byte?_eq_some_iff.1 (by decide)
  have number : Number.Numeral 10 "0003".toList (⟨3⟩ : Register).index :=
    (Number.read?_eq_some_iff (by decide)).1 (by decide)
  have legal : LabelName "top_1".toList := isLabel_iff.1 (by decide)
  have num : "nUm".toList.map Char.toUpper = SourceKind.constant.marker := by decide
  have rm : "rM".toList.map Char.toUpper = SourceKind.registerMemory.marker := by decide
  have spelled : List.Forall₂ Operand.Spells
      [.constant 255, .registerMemory ⟨3⟩, .label "top_1"]
      ["nUm0X0fF".toList, "rM0003".toList, ":top_1".toList] :=
    .cons (.marked num (.constant literal))
      (.cons (.marked rm (.registerMemory number)) (.cons (.label legal) .nil))
  have joined : Text.Joined isSeparator
      ["mOv".toList, "nUm0X0fF".toList, "rM0003".toList, ":top_1".toList]
      ("mOv".toList ++ ['\u2003'] ++ ("nUm0X0fF".toList ++ [',', ','] ++
        ("rM0003".toList ++ ['\u00a0'] ++ ":top_1".toList))) :=
    .more (by decide) (List.all_eq_true.1 rfl)
      (.more (by decide) (List.all_eq_true.1 rfl)
        (.more (by decide) (List.all_eq_true.1 rfl) (.last _)))
  have ahead : ∀ c ∈ [' ', ','], isSeparator c := List.all_eq_true.1 rfl
  have behind : ∀ c ∈ ['\t', ',', ' '], isSeparator c := List.all_eq_true.1 rfl
  have comment : IsComment "; R9".toList := .inr ⟨" R9".toList, by decide⟩
  have letters : "mOv".toList.map Char.toUpper = "Mov".toList.map Char.toUpper := by decide
  exact .line letters spelled joined ahead behind comment

theorem parse_inverts_spelling_scattered :
    IsMnemonic "Mov".toList ∧
      SpellsLine "Mov".toList [.constant 255, .registerMemory ⟨3⟩, .label "top_1"] scattered ∧
      parseLine scattered =
        .ok (.instruction "MOV" [.constant 255, .registerMemory ⟨3⟩, .label "top_1"]) ∧
      BlankLine " ,\u2003; R9".toList ∧ parseLine " ,\u2003; R9".toList = .ok .blank := by
  have unbroken : ∀ c ∈ "Mov".toList, Unbroken c := by
    intro c mem
    have letter : c = 'M' ∨ c = 'o' ∨ c = 'v' := by simpa using mem
    rcases letter with rfl | rfl | rfl <;> decide
  have word : IsMnemonic "Mov".toList := ⟨by decide, unbroken, by decide⟩
  have blank : BlankLine ([' ', ',', '\u2003'] ++ "; R9".toList) :=
    .line (List.all_eq_true.1 rfl) (.inr ⟨" R9".toList, by decide⟩)
  exact ⟨word, spellsLine_scattered, parse_inverts_spelling.1 _ _ _ word spellsLine_scattered,
    blank, parse_inverts_spelling.2 _ blank⟩

end Assembly
end ByteMachine
