import ByteMachine.Proofs.Assembly.Spelling
import ByteMachine.Proofs.Text.Number

/-!
This module contains the grammar of operand tokens: what may be written behind the marker of each
kind, and what is wrong with every other token.
-/

namespace ByteMachine
namespace Assembly

def NameStart (c : Char) : Prop :=
  ('A' ≤ c ∧ c ≤ 'Z') ∨ ('a' ≤ c ∧ c ≤ 'z') ∨ c = '_'

def LabelName (name : List Char) : Prop :=
  ∃ first rest, name = first :: rest ∧ NameStart first ∧
    ∀ c ∈ rest, NameStart c ∨ ('0' ≤ c ∧ c ≤ '9')

theorem nameStart_iff {c : Char} : (c.isAlpha || c = '_') = true ↔ NameStart c := by
  have letter : c.isAlpha = true ↔ c.isUpper = true ∨ c.isLower = true :=
    Bool.or_eq_true_iff
  have upper : c.isUpper = true ↔ 'A' ≤ c ∧ c ≤ 'Z' :=
    decide_eq_true_iff
  have lower : c.isLower = true ↔ 'a' ≤ c ∧ c ≤ 'z' :=
    Bool.and_eq_true_iff.trans (and_congr decide_eq_true_iff decide_eq_true_iff)
  simp only [Bool.or_eq_true, decide_eq_true_eq, letter, upper, lower, NameStart, or_assoc]

theorem nameRest_iff {c : Char} :
    (c.isAlphanum || c = '_') = true ↔ NameStart c ∨ ('0' ≤ c ∧ c ≤ '9') := by
  have digit : c.isDigit = true ↔ '0' ≤ c ∧ c ≤ '9' := by
    simp only [Char.isDigit, Bool.and_eq_true, decide_eq_true_eq]
    rfl
  rw [← nameStart_iff, ← digit]
  simp only [Char.isAlphanum, Bool.or_eq_true, decide_eq_true_eq]
  tauto

theorem isLabel_iff {name : List Char} : isLabel name = true ↔ LabelName name := by
  cases name with
  | nil => simp [isLabel, LabelName]
  | cons first rest =>
    simp only [isLabel, Bool.and_eq_true, List.all_eq_true, nameStart_iff, nameRest_iff]
    constructor
    . rintro ⟨start, more⟩
      exact ⟨first, rest, rfl, start, more⟩
    . rintro ⟨_, _, same, start, more⟩
      cases same
      exact ⟨start, more⟩

/--
The text behind the marker of a kind gives this operand. Literals are decimal or hexadecimal,
registers are decimal, and either may have any number of digits.
-/
inductive Gives : SourceKind → List Char → Operand → Prop where
  | constant {text : List Char} {value : UInt8} (written : Number.Written text value.toNat) :
    Gives .constant text (.constant value)
  | register {text : List Char} {r : Register} (written : Number.Numeral 10 text r.index) :
    Gives .register text (.register r)
  | registerMemory {text : List Char} {r : Register} (written : Number.Numeral 10 text r.index) :
    Gives .registerMemory text (.registerMemory r)
  | memory {text : List Char} {address : UInt8} (written : Number.Written text address.toNat) :
    Gives .memory text (.memory address)

def SourceKind.IsLiteral (kind : SourceKind) : Prop :=
  kind = .constant ∨ kind = .memory

def SourceKind.IsRegister (kind : SourceKind) : Prop :=
  kind = .register ∨ kind = .registerMemory

inductive Fails (token : List Char) (kind : SourceKind) (text : List Char) : Problem → Prop where
  | literal (literal : kind.IsLiteral) (none : ∀ n ≤ 255, ¬Number.Written text n) :
    Fails token kind text (.invalidLiteral (String.ofList token))
  | outOfRange {n : Nat} (register : kind.IsRegister) (written : Number.Numeral 10 text n)
    (large : 7 < n) : Fails token kind text (.registerOutOfRange (String.ofList token))
  | noNumber (register : kind.IsRegister) (none : ∀ n, ¬Number.Numeral 10 text n) :
    Fails token kind text (.malformedOperand (String.ofList token))

section Parts

variable {token text : List Char}

theorem parseLiteral_eq_ok_iff {value : UInt8} :
    parseLiteral token text = .ok value ↔ Number.Written text value.toNat := by
  rw [parseLiteral, ← Number.byte?_eq_some_iff]
  cases Number.byte? text <;> simp

theorem parseLiteral_eq_error_iff {problem : Problem} :
    parseLiteral token text = .error problem ↔
      (∀ n ≤ 255, ¬Number.Written text n) ∧ problem = .invalidLiteral (String.ofList token) := by
  have none : (∀ n ≤ 255, ¬Number.Written text n) ↔ Number.byte? text = none := by
    rw [Option.eq_none_iff_forall_ne_some, ← not_exists, ← Number.exists_written_iff]
    simp
  rw [parseLiteral, none]
  cases Number.byte? text <;> simp [eq_comm]

theorem parseRegister_eq_ok_iff {r : Register} :
    parseRegister token text = .ok r ↔ Number.Numeral 10 text r.index := by
  rw [← Number.read?_eq_some_iff (by decide), parseRegister]
  cases read : Number.read? 10 text with
  | none => simp
  | some n =>
    simp only [Option.some.injEq]
    split
    . next small =>
      obtain ⟨index⟩ := r
      simp [Fin.ext_iff]
    . next large =>
      have := r.index.isLt
      simp only [reduceCtorEq, false_iff]
      omega

theorem parseRegister_eq_error_iff {problem : Problem} :
    parseRegister token text = .error problem ↔
      (∃ n, Number.Numeral 10 text n ∧ 7 < n ∧
        problem = .registerOutOfRange (String.ofList token)) ∨
      ((∀ n, ¬Number.Numeral 10 text n) ∧ problem = .malformedOperand (String.ofList token)) := by
  have numeral : ∀ n, Number.Numeral 10 text n ↔ Number.read? 10 text = some n :=
    fun n => (Number.read?_eq_some_iff (by decide)).symm
  simp only [numeral, parseRegister]
  cases read : Number.read? 10 text with
  | none => simp [eq_comm]
  | some n =>
    simp only [Option.some.injEq]
    split
    . next small =>
      constructor
      . intro impossible
        cases impossible
      . rintro (⟨_, rfl, large, -⟩ | ⟨none, -⟩)
        . omega
        . exact absurd rfl (none n)
    . next large =>
      constructor
      . intro refused
        cases refused
        exact .inl ⟨n, rfl, by omega, rfl⟩
      . rintro (⟨_, rfl, -, rfl⟩ | ⟨none, -⟩)
        . rfl
        . exact absurd rfl (none n)

end Parts

def SourceKind.parse (kind : SourceKind) (token text : List Char) : Except Problem Operand :=
  match kind with
  | .constant => (parseLiteral token text).map .constant
  | .register => (parseRegister token text).map .register
  | .registerMemory => (parseRegister token text).map .registerMemory
  | .memory => (parseLiteral token text).map .memory

theorem map_eq_ok_iff {x : Except ε α} {f : α → β} {b : β} :
    x.map f = .ok b ↔ ∃ a, x = .ok a ∧ f a = b := by
  cases x <;> simp [Except.map]

theorem map_eq_error_iff {x : Except ε α} {f : α → β} {e : ε} :
    x.map f = .error e ↔ x = .error e := by
  cases x <;> simp [Except.map]

namespace SourceKind

variable {kind : SourceKind} {token text : List Char}

theorem parse_eq_ok_iff {operand : Operand} :
    kind.parse token text = .ok operand ↔ Gives kind text operand := by
  constructor
  . intro parses
    cases kind with
    | constant =>
      obtain ⟨value, read, rfl⟩ := map_eq_ok_iff.1 parses
      exact .constant (parseLiteral_eq_ok_iff.1 read)
    | register =>
      obtain ⟨r, read, rfl⟩ := map_eq_ok_iff.1 parses
      exact .register (parseRegister_eq_ok_iff.1 read)
    | registerMemory =>
      obtain ⟨r, read, rfl⟩ := map_eq_ok_iff.1 parses
      exact .registerMemory (parseRegister_eq_ok_iff.1 read)
    | memory =>
      obtain ⟨address, read, rfl⟩ := map_eq_ok_iff.1 parses
      exact .memory (parseLiteral_eq_ok_iff.1 read)
  . intro gives
    cases gives with
    | constant written => exact map_eq_ok_iff.2 ⟨_, parseLiteral_eq_ok_iff.2 written, rfl⟩
    | register written => exact map_eq_ok_iff.2 ⟨_, parseRegister_eq_ok_iff.2 written, rfl⟩
    | registerMemory written => exact map_eq_ok_iff.2 ⟨_, parseRegister_eq_ok_iff.2 written, rfl⟩
    | memory written => exact map_eq_ok_iff.2 ⟨_, parseLiteral_eq_ok_iff.2 written, rfl⟩

theorem parse_literal_eq_error_iff (literal : kind.IsLiteral) {problem : Problem} :
    kind.parse token text = .error problem ↔ parseLiteral token text = .error problem := by
  rcases literal with rfl | rfl <;> exact map_eq_error_iff

theorem parse_register_eq_error_iff (register : kind.IsRegister) {problem : Problem} :
    kind.parse token text = .error problem ↔ parseRegister token text = .error problem := by
  rcases register with rfl | rfl <;> exact map_eq_error_iff

theorem isLiteral_or_isRegister (kind : SourceKind) : kind.IsLiteral ∨ kind.IsRegister := by
  cases kind <;> simp [IsLiteral, IsRegister]

theorem parse_eq_error_iff {problem : Problem} :
    kind.parse token text = .error problem ↔ Fails token kind text problem := by
  constructor
  . intro parses
    rcases kind.isLiteral_or_isRegister with literal | register
    . rw [parse_literal_eq_error_iff literal, parseLiteral_eq_error_iff] at parses
      obtain ⟨none, rfl⟩ := parses
      exact .literal literal none
    . rw [parse_register_eq_error_iff register, parseRegister_eq_error_iff] at parses
      rcases parses with ⟨n, written, large, rfl⟩ | ⟨none, rfl⟩
      . exact .outOfRange register written large
      . exact .noNumber register none
  . intro fails
    cases fails with
    | literal literal none =>
      rw [parse_literal_eq_error_iff literal, parseLiteral_eq_error_iff]
      exact ⟨none, rfl⟩
    | outOfRange register written large =>
      rw [parse_register_eq_error_iff register, parseRegister_eq_error_iff]
      exact .inl ⟨_, written, large, rfl⟩
    | noNumber register none =>
      rw [parse_register_eq_error_iff register, parseRegister_eq_error_iff]
      exact .inr ⟨none, rfl⟩

end SourceKind

/--
The order in which the markers are tried. One of them begins with another, and it comes first.
-/
def SourceKind.inOrder : List SourceKind :=
  [.constant, .registerMemory, .register, .memory]

/--
In upper case the token begins with the marker of this kind and of none that is tried before it, and
the text is behind the marker.
-/
structure Marked (token : List Char) (kind : SourceKind) (text : List Char) : Prop where
  first : SourceKind.inOrder.find? (·.marker.isPrefixOf (token.map Char.toUpper)) = some kind
  behind : token.map Char.toUpper = kind.marker ++ text

def Unmarked (token : List Char) : Prop :=
  ∀ kind : SourceKind, ¬kind.marker <+: token.map Char.toUpper

inductive Reading (line : Nat) (token : List Char) : Except Error Operand → Prop where
  | label {name : String} (written : token = ':' :: name.toList)
    (legal : LabelName name.toList) : Reading line token (.ok (.label name))
  | operand {kind : SourceKind} {text : List Char} {operand : Operand}
    (marked : Marked token kind text) (gives : Gives kind text operand) :
    Reading line token (.ok operand)
  | failure {kind : SourceKind} {text : List Char} {problem : Problem}
    (marked : Marked token kind text) (fails : Fails token kind text problem) :
    Reading line token (.error ⟨line, problem⟩)
  | malformedLabel {name : List Char} (written : token = ':' :: name)
    (illegal : ¬LabelName name) :
    Reading line token (.error ⟨line, .malformedOperand (String.ofList token)⟩)
  | unmarked (first : token.head? ≠ some ':') (unmarked : Unmarked token) :
    Reading line token (.error ⟨line, .malformedOperand (String.ofList token)⟩)

theorem SourceKind.mem_inOrder (kind : SourceKind) : kind ∈ inOrder := by
  cases kind <;> decide

section Token

variable {token : List Char}

theorem marked_or_unmarked (token : List Char) :
    (∃ kind text, Marked token kind text) ∨ Unmarked token := by
  cases first : SourceKind.inOrder.find? (·.marker.isPrefixOf (token.map Char.toUpper)) with
  | some kind =>
    have begins := List.find?_some first
    obtain ⟨text, behind⟩ := List.isPrefixOf_iff_prefix.1 begins
    exact .inl ⟨kind, text, first, behind.symm⟩
  | none =>
    refine .inr fun kind begins => ?_
    exact List.find?_eq_none.1 first kind kind.mem_inOrder (List.isPrefixOf_iff_prefix.2 begins)

theorem Marked.head?_ne {text : List Char} (marked : Marked token .register text) :
    text.head? ≠ some 'M' := by
  intro head
  obtain ⟨rest, rfl⟩ := List.head?_eq_some_iff.1 head
  have first := marked.first
  have second : SourceKind.inOrder.find? (·.marker.isPrefixOf ('R' :: 'M' :: rest)) =
      some .registerMemory := rfl
  rw [marked.behind] at first
  cases second.symm.trans first

theorem Marked.not_label {kind : SourceKind} {text : List Char} (marked : Marked token kind text) :
    token.head? ≠ some ':' := by
  intro head
  obtain ⟨rest, rfl⟩ := List.head?_eq_some_iff.1 head
  have upper := marked.behind
  cases kind <;> exact absurd (List.cons.inj upper).1 (by decide)

theorem parseOperand_of_marked {kind : SourceKind} {text : List Char}
    (marked : Marked token kind text) : parseOperand token = kind.parse token text := by
  have upper := marked.behind
  unfold parseOperand
  split
  . exact absurd rfl marked.not_label
  . generalize token.map Char.toUpper = letters at upper ⊢
    subst upper
    cases kind with
    | constant | registerMemory | memory => rfl
    | register =>
      simp only [SourceKind.marker, List.singleton_append]
      split
      . next same => cases same
      . next same =>
        cases same
        exact absurd rfl marked.head?_ne
      . next same =>
        cases same
        rfl
      . next same => cases same
      . next other _ => exact absurd rfl (other _)

theorem parseOperand_of_unmarked (first : token.head? ≠ some ':') (unmarked : Unmarked token) :
    parseOperand token = .error (.malformedOperand (String.ofList token)) := by
  unfold Unmarked at unmarked
  unfold parseOperand
  split
  . contradiction
  . split
    . next same => exact absurd ⟨_, same.symm⟩ (unmarked .constant)
    . next same => exact absurd ⟨_, same.symm⟩ (unmarked .registerMemory)
    . next same => exact absurd ⟨_, same.symm⟩ (unmarked .register)
    . next same => exact absurd ⟨_, same.symm⟩ (unmarked .memory)
    . rfl

theorem parseOperand_of_legal {name : String} (legal : LabelName name.toList) :
    parseOperand (':' :: name.toList) = .ok (.label name) := by
  rw [parseOperand, parseLabel, if_pos (isLabel_iff.2 legal), String.ofList_toList]
  rfl

theorem parseOperand_of_illegal {name : List Char} (illegal : ¬LabelName name) :
    parseOperand (':' :: name) = .error (.malformedOperand (String.ofList (':' :: name))) := by
  rw [parseOperand, parseLabel, if_neg (mt isLabel_iff.1 illegal)]
  rfl

theorem reading_parseOperand (line : Nat) (token : List Char) :
    Reading line token (onLine line (parseOperand token)) := by
  by_cases head : token.head? = some ':'
  . obtain ⟨name, rfl⟩ := List.head?_eq_some_iff.1 head
    by_cases legal : LabelName name
    . rw [← String.toList_ofList (l := name)] at legal ⊢
      rw [parseOperand_of_legal legal]
      exact .label rfl legal
    . rw [parseOperand_of_illegal legal]
      exact .malformedLabel rfl legal
  . rcases marked_or_unmarked token with ⟨kind, text, marked⟩ | unmarked
    . rw [parseOperand_of_marked marked]
      cases parses : kind.parse token text with
      | ok operand => exact .operand marked (SourceKind.parse_eq_ok_iff.1 parses)
      | error problem => exact .failure marked (SourceKind.parse_eq_error_iff.1 parses)
    . rw [parseOperand_of_unmarked head unmarked]
      exact .unmarked head unmarked

theorem Reading.outcome_eq {line : Nat} {outcome : Except Error Operand}
    (reading : Reading line token outcome) : onLine line (parseOperand token) = outcome := by
  cases reading with
  | label written legal =>
    rw [written, parseOperand_of_legal legal]
    rfl
  | operand marked gives =>
    rw [parseOperand_of_marked marked, SourceKind.parse_eq_ok_iff.2 gives]
    rfl
  | failure marked fails =>
    rw [parseOperand_of_marked marked, SourceKind.parse_eq_error_iff.2 fails]
    rfl
  | malformedLabel written illegal =>
    rw [written, parseOperand_of_illegal illegal]
    rfl
  | unmarked first unmarked =>
    rw [parseOperand_of_unmarked first unmarked]
    rfl

end Token

theorem operand_follows_grammar (line : Nat) (token : List Char)
    (outcome : Except Error Operand) :
    onLine line (parseOperand token) = outcome ↔ Reading line token outcome := by
  constructor
  . rintro rfl
    exact reading_parseOperand line token
  . exact Reading.outcome_eq

example : parseOperand "rM0007".toList = .ok (.registerMemory ⟨7⟩) := by decide

example : parseOperand "r99999999999999999999".toList =
    .error (.registerOutOfRange "r99999999999999999999") := by decide

end Assembly
end ByteMachine
