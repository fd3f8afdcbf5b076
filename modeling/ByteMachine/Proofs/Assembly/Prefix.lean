import ByteMachine.Proofs.Assembly.Operand
import ByteMachine.Proofs.Assembly.Source

/-!
This module contains what the lines of a source have to do with the lines behind them: nothing.
Encoding a source ends at the first line in error, whatever follows, and a program that has been
encoded begins with the program of the lines so far.
-/

namespace ByteMachine

namespace Text

/--
The first lines of a text, together with their ends.
-/
def firstLines : Nat → List Char → List Char
  | 0, _ => []
  | _ + 1, [] => []
  | n + 1, c :: rest =>
    if c = '\n' then c :: firstLines n rest else c :: firstLines (n + 1) rest

theorem head?_firstLines_succ (n : Nat) (s : List Char) :
    (firstLines (n + 1) s).head? = s.head? := by
  cases s with
  | nil => rfl
  | cons c rest =>
    rw [firstLines]
    split <;> rfl

theorem lines_firstLines (n : Nat) (s : List Char) :
    lines (firstLines n s) = (lines s).take n := by
  induction s generalizing n with
  | nil => cases n <;> rfl
  | cons c rest ih =>
    cases n with
    | zero => rfl
    | succ n =>
      by_cases feed : c = '\n'
      . simp only [firstLines, lines, feed, ↓reduceIte, ih, List.take_succ_cons]
      . -- the line goes on, so what is dropped or put in front of it is the same in both texts
        rw [firstLines, if_neg feed, lines, if_neg feed, lines, if_neg feed, head?_firstLines_succ,
          ih]
        split
        . rfl
        . cases lines rest with
          | nil => simp only [List.take_nil, List.take_succ_cons]
          | cons line more => rfl

end Text

namespace Assembly

def Problem.isLinking : Problem → Bool
  | .labelNotFound _ => true
  | _ => false

theorem isLinking_of_parseOperand {token : List Char} {problem : Problem}
    (failed : parseOperand token = .error problem) : problem.isLinking = false := by
  have reading : Reading 0 token (.error ⟨0, problem⟩) := by
    have := reading_parseOperand 0 token
    rw [failed] at this
    exact this
  cases reading with
  | failure marked fails => cases fails <;> rfl
  | malformedLabel | unmarked => rfl

theorem isLinking_of_mapM_parseOperand {words : List (List Char)} {problem : Problem}
    (failed : words.mapM parseOperand = .error problem) : problem.isLinking = false := by
  induction words with
  | nil => contradiction
  | cons word words ih =>
    rw [List.mapM_cons] at failed
    rcases bind_eq_error_iff.1 failed with first | ⟨operand, -, failed⟩
    . exact isLinking_of_parseOperand first
    . rcases bind_eq_error_iff.1 failed with rest | ⟨operands, -, done⟩
      . exact ih rest
      . contradiction

theorem isLinking_of_parseLine {text : List Char} {problem : Problem}
    (failed : parseLine text = .error problem) : problem.isLinking = false := by
  unfold parseLine parseTokens at failed
  split at failed
  . contradiction
  . rw [map_eq_error_iff, parseLabel] at failed
    split at failed
    . contradiction
    . cases failed
      rfl
  . cases failed
    rfl
  . rcases bind_eq_error_iff.1 failed with operands | ⟨operands, -, done⟩
    . exact isLinking_of_mapM_parseOperand operands
    . contradiction

section Encoding

variable {c : Cursor} {problem : Problem}

theorem expect_eq_error {kind : SourceKind} (failed : c.expect kind = .error problem) :
    problem = c.mismatch := by
  rw [Cursor.expect] at failed
  split at failed
  . cases failed
    rfl
  . split at failed
    . contradiction
    . cases failed
      rfl

theorem expectRegister_eq_error (failed : c.expectRegister = .error problem) :
    problem = c.mismatch := by
  rw [Cursor.expectRegister] at failed
  split at failed
  . contradiction
  . cases failed
    rfl

theorem isLinking_of_take {e : Encoding} {kind : OperandKind}
    (failed : e.take c kind = .error problem) : problem.isLinking = false := by
  cases kind with
  | constant | memoryAddress | register =>
    rcases bind_eq_error_iff.1 failed with failed | ⟨_, -, done⟩
    . rw [expect_eq_error failed]
      rfl
    . contradiction
  | registerPair =>
    rcases bind_eq_error_iff.1 failed with failed | ⟨_, -, failed⟩
    . rw [expectRegister_eq_error failed]
      rfl
    . rcases bind_eq_error_iff.1 failed with failed | ⟨_, -, done⟩
      . rw [expectRegister_eq_error failed]
        rfl
      . contradiction

theorem isLinking_of_takeAll {e : Encoding} {kinds : List OperandKind}
    (failed : e.takeAll c kinds = .error problem) : problem.isLinking = false := by
  induction kinds generalizing e c with
  | nil => contradiction
  | cons kind kinds ih =>
    rcases bind_eq_error_iff.1 failed with first | ⟨_, -, rest⟩
    . exact isLinking_of_take first
    . exact ih rest

theorem isLinking_of_encode {set : InstructionSet} {mnemonic : String} {operands : List Operand}
    (failed : encode set mnemonic operands = .error problem) : problem.isLinking = false := by
  unfold encode encodeForm at failed
  split at failed
  . cases failed
    rfl
  . split at failed
    . split at failed
      . cases failed
        rfl
      . rcases bind_eq_error_iff.1 failed with failed | ⟨_, -, failed⟩
        . exact isLinking_of_takeAll failed
        . rcases bind_eq_error_iff.1 failed with failed | ⟨_, -, done⟩
          . rw [Cursor.finish] at failed
            split at failed
            . contradiction
            . cases failed
              rfl
          . contradiction
    . cases failed
      rfl

end Encoding

namespace Program

variable {set : InstructionSet}

theorem isLinking_of_addLine {p : Program} {line : Nat} {text : List Char} {problem : Problem}
    (failed : p.addLine set line text = .error problem) : problem.isLinking = false := by
  rcases bind_eq_error_iff.1 failed with failed | ⟨parsed, -, failed⟩
  . exact isLinking_of_parseLine failed
  . cases parsed with
    | blank => contradiction
    | label name =>
      rcases bind_eq_error_iff.1 failed with failed | ⟨_, -, done⟩
      . obtain ⟨first, -, rfl⟩ := SymbolTable.define_eq_error_iff.1 failed
        rfl
      . contradiction
    | instruction mnemonic operands =>
      rcases bind_eq_error_iff.1 failed with failed | ⟨encoding, -, failed⟩
      . exact isLinking_of_encode failed
      . dsimp only [append] at failed
        split at failed
        . contradiction
        . cases failed
          rfl

theorem addLines_append (p : Program) (first rest : List (List Char × Nat)) :
    p.addLines set (first ++ rest) = p.addLines set first >>= fun q => q.addLines set rest := by
  induction first generalizing p with
  | nil => rfl
  | cons text first ih =>
    simp only [List.cons_append, addLines, bind_assoc, ih]

theorem addLines_eq_error_iff {p : Program} {lines : List (List Char × Nat)} {e : Error} :
    p.addLines set lines = .error e ↔
      ∃ before text after q, lines = before ++ (text, e.line) :: after ∧
        p.addLines set before = .ok q ∧ q.addLine set e.line text = .error e.problem := by
  constructor
  . intro failed
    induction lines generalizing p with
    | nil => contradiction
    | cons first lines ih =>
      obtain ⟨text, line⟩ := first
      rcases bind_eq_error_iff.1 failed with here | ⟨q, added, failed⟩
      . obtain ⟨rfl, here⟩ := onLine_eq_error_iff.1 here
        exact ⟨[], text, lines, p, rfl, rfl, here⟩
      . obtain ⟨before, other, after, r, rfl, fine, here⟩ := ih failed
        refine ⟨(text, line) :: before, other, after, r, rfl, ?_, here⟩
        exact bind_eq_ok_iff.2 ⟨q, added, fine⟩
  . rintro ⟨before, text, after, q, rfl, fine, here⟩
    have last := onLine_eq_error_iff.2 ⟨rfl, here⟩
    rw [addLines_append, fine]
    exact bind_eq_error_iff.2 (.inr ⟨q, rfl, bind_eq_error_iff.2 (.inl last)⟩)

theorem ofSource_eq_error_iff {source : String} {e : Error} :
    ofSource set source = .error e ↔
      ∃ before text after q, Text.lines source.toList = before ++ text :: after ∧
        e.line = before.length + 1 ∧ addLines set {} (before.zipIdx 1) = .ok q ∧
        q.addLine set e.line text = .error e.problem := by
  rw [ofSource_eq_addLines, addLines_eq_error_iff]
  constructor
  . rintro ⟨before, text, after, q, split, fine, here⟩
    obtain ⟨before, rest, lines, rfl, behind⟩ := List.zipIdx_eq_append_iff.1 split
    obtain ⟨_, after, rfl, same, -⟩ := List.zipIdx_eq_cons_iff.1 behind.symm
    obtain ⟨rfl, line⟩ := Prod.mk.inj same
    exact ⟨before, _, after, q, lines, by omega, fine, here⟩
  . rintro ⟨before, text, after, q, lines, line, fine, here⟩
    refine ⟨before.zipIdx 1, text, after.zipIdx (e.line + 1), q, ?_, fine, here⟩
    rw [lines, List.zipIdx_append, List.zipIdx_cons, line, Nat.add_comm 1]

structure Begins (q p : Program) : Prop where
  chunks : q.chunks <+: p.chunks
  fixups : q.fixups <+: p.fixups
  labels : ∀ name symbol, q.symbols.get? name = some symbol → p.symbols.get? name = some symbol

namespace Begins

theorem refl (p : Program) : p.Begins p :=
  ⟨List.prefix_rfl, List.prefix_rfl, fun _ _ found => found⟩

theorem trans {p q r : Program} (first : p.Begins q) (second : q.Begins r) : p.Begins r where
  chunks := first.chunks.trans second.chunks
  fixups := first.fixups.trans second.fixups
  labels name symbol found := second.labels name symbol (first.labels name symbol found)

theorem addLine {p q : Program} {line : Nat} {text : List Char}
    (added : p.addLine set line text = .ok q) : p.Begins q := by
  rcases addLine_eq_ok added with ⟨-, rfl⟩ | ⟨name, symbols, -, defined, rfl⟩ |
    ⟨mnemonic, operands, encoding, -, -, appended⟩
  . exact .refl _
  . exact ⟨List.prefix_rfl, List.prefix_rfl, fun _ _ => SymbolTable.get?_of_define defined⟩
  . obtain ⟨-, rfl⟩ := append_eq_ok_iff.1 appended
    exact ⟨List.prefix_append _ _, List.prefix_append _ _, fun _ _ found => found⟩

theorem addLines {lines : List (List Char × Nat)} {p q : Program}
    (added : p.addLines set lines = .ok q) : p.Begins q := by
  induction lines generalizing p with
  | nil =>
    cases added
    exact .refl _
  | cons text lines ih =>
    obtain ⟨r, first, rest⟩ := bind_eq_ok_iff.1 added
    exact (addLine (onLine_eq_ok_iff.1 first)).trans (ih rest)

end Begins

end Program

/--
The source that ends after this many lines.
-/
def firstLines (n : Nat) (source : String) : String :=
  String.ofList (Text.firstLines n source.toList)

namespace Program

theorem ofSource_firstLines (set : InstructionSet) (n : Nat) (source : String) :
    ofSource set (firstLines n source) =
      addLines set {} (((Text.lines source.toList).take n).zipIdx 1) := by
  rw [ofSource_eq_addLines, firstLines, String.toList_ofList, Text.lines_firstLines]

theorem exists_begins_of_ofSource {set : InstructionSet} {source : String} {p : Program}
    (assembled : ofSource set source = .ok p) (n : Nat) :
    ∃ q, ofSource set (firstLines n source) = .ok q ∧ q.Begins p := by
  rw [ofSource_eq_addLines, ← List.take_append_drop n (Text.lines source.toList),
    List.zipIdx_append, addLines_append] at assembled
  obtain ⟨q, first, rest⟩ := bind_eq_ok_iff.1 assembled
  rw [ofSource_firstLines]
  exact ⟨q, first, .addLines rest⟩

theorem first_error_decides (set : InstructionSet) (source : String) :
    (∀ e, ofSource set source = .error e →
      1 ≤ e.line ∧ e.line ≤ (Text.lines source.toList).length ∧
      (∃ p, ofSource set (firstLines (e.line - 1) source) = .ok p) ∧
      ∀ other : String,
        (Text.lines other.toList).take e.line = (Text.lines source.toList).take e.line →
        ofSource set other = .error e) ∧
    (∀ p, ofSource set source = .ok p →
      ∀ n, ∃ q, ofSource set (firstLines n source) = .ok q ∧ q.Begins p) ∧
    ∀ e, assemble source = .error e ↔
      (ofSource .standard source = .error e ∧ e.problem.isLinking = false) ∨
        ∃ p, ofSource .standard source = .ok p ∧ p.link = .error e := by
  refine ⟨?_, fun p assembled n => exists_begins_of_ofSource assembled n, ?_⟩
  . intro e failed
    obtain ⟨before, text, after, q, lines, line, fine, here⟩ := ofSource_eq_error_iff.1 failed
    refine ⟨by omega, by simp [lines, line], ⟨q, ?_⟩, ?_⟩
    . rw [ofSource_firstLines, lines, line, Nat.add_sub_cancel, List.take_left, fine]
    . intro other same
      have first : (Text.lines source.toList).take e.line = before ++ [text] := by
        rw [lines, line, List.take_length_add_append, List.take_succ_cons, List.take_zero]
      have split := List.take_append_drop e.line (Text.lines other.toList)
      rw [same, first, List.append_assoc, List.singleton_append] at split
      exact ofSource_eq_error_iff.2 ⟨before, text, _, q, split.symm, line, fine, here⟩
  . intro e
    rw [assemble, bind_eq_error_iff]
    refine or_congr_left ?_
    constructor
    . intro failed
      obtain ⟨_, _, _, _, _, _, _, here⟩ := ofSource_eq_error_iff.1 failed
      exact ⟨failed, isLinking_of_addLine here⟩
    . intro failed
      exact failed.1

def unfinished : String :=
  "JMP :end\n:loop\nINC R9\nINC\n"

theorem first_error_decides_of_unfinished :
    ofSource .standard unfinished = .error ⟨3, .registerOutOfRange "R9"⟩ ∧
      (∃ p, ofSource .standard (firstLines 2 unfinished) = .ok p) ∧
      ofSource .standard "JMP :end\r\n:loop\nINC R9\n:loop" =
        .error ⟨3, .registerOutOfRange "R9"⟩ ∧
      ∃ p q : Program, ofSource .standard "JMP :end\n:loop\n" = .ok p ∧
        ofSource .standard (firstLines 1 "JMP :end\n:loop\n") = .ok q ∧ q.Begins p ∧
        assemble "JMP :end\n:loop\n" = .error ⟨1, .labelNotFound "end"⟩ := by
  have failed : ofSource .standard unfinished = .error ⟨3, .registerOutOfRange "R9"⟩ := rfl
  obtain ⟨-, -, before, others⟩ := (first_error_decides .standard unfinished).1 _ failed
  obtain ⟨-, beginnings, linking⟩ := first_error_decides .standard "JMP :end\n:loop\n"
  obtain ⟨q, first, begins⟩ := beginnings _ rfl 1
  have same := others "JMP :end\r\n:loop\nINC R9\n:loop" (by decide +kernel)
  have unlinked := (linking ⟨1, .labelNotFound "end"⟩).2 (.inr ⟨_, rfl, rfl⟩)
  exact ⟨failed, before, same, _, q, rfl, first, begins, unlinked⟩

end Program

end Assembly
end ByteMachine
