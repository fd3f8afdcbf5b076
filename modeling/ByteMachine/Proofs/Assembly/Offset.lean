import ByteMachine.Assembly.Program

/-!
This module contains the first pass over a source in terms of the program alone: the offset at which
the next instruction is to begin is the size of the program so far.
-/

namespace ByteMachine
namespace Assembly
namespace Program

def append (p : Program) (line : Nat) (encoding : Encoding) : Except Problem Program :=
  let chunk : Chunk := ⟨line, p.size, encoding.bytes⟩
  if chunk.stop ≤ 256 then
    let fixups := encoding.references.map fun (index, label) => ⟨line, p.size + index, label⟩
    .ok { p with chunks := p.chunks ++ [chunk], fixups := p.fixups ++ fixups }
  else
    .error (.programTooLarge chunk.stop)

def addLine (set : InstructionSet) (p : Program) (line : Nat) (text : List Char) :
    Except Problem Program := do
  match ← parseLine text with
  | .blank => return p
  | .label name =>
    let symbols ← p.symbols.define name ⟨p.size, line⟩
    return { p with symbols }
  | .instruction mnemonic operands => p.append line (← encode set mnemonic operands)

def addLines (set : InstructionSet) (p : Program) : List (List Char × Nat) → Except Error Program
  | [] => .ok p
  | (text, line) :: rest => do
    let p ← onLine line (p.addLine set line text)
    p.addLines set rest

def draft (p : Program) : Draft :=
  ⟨p, p.size⟩

section

variable {p q : Program} {line : Nat} {encoding : Encoding}

theorem append_eq_ok_iff :
    p.append line encoding = .ok q ↔
      p.size + encoding.bytes.length ≤ 256 ∧
        q = { p with
              chunks := p.chunks ++ [⟨line, p.size, encoding.bytes⟩]
              fixups := p.fixups ++
                encoding.references.map fun (index, label) => ⟨line, p.size + index, label⟩ } := by
  simp only [append, Chunk.stop]
  by_cases fits : p.size + encoding.bytes.length ≤ 256
  . simp [fits, eq_comm]
  . simp [fits]

theorem size_of_append (appended : p.append line encoding = .ok q) :
    q.size = p.size + encoding.bytes.length := by
  obtain ⟨-, rfl⟩ := append_eq_ok_iff.1 appended
  simp [size, Chunk.stop]

end

theorem append_draft (p : Program) (line : Nat) (encoding : Encoding) :
    p.draft.append line encoding = (p.append line encoding).map draft := by
  by_cases fits : (⟨line, p.size, encoding.bytes⟩ : Chunk).stop ≤ 256
  . obtain ⟨q, appended⟩ : ∃ q, p.append line encoding = .ok q := ⟨_, if_pos fits⟩
    have size := size_of_append appended
    obtain ⟨-, rfl⟩ := append_eq_ok_iff.1 appended
    rw [appended, Draft.append, draft, if_pos fits, Except.map, draft, size]
    rfl
  . rw [Draft.append, append, draft, if_neg fits, if_neg fits]
    rfl

section

variable {set : InstructionSet}

theorem addLine_draft (p : Program) (line : Nat) (text : List Char) :
    p.draft.addLine set line text = (p.addLine set line text).map draft := by
  rw [Draft.addLine, addLine]
  cases parseLine text with
  | error problem => rfl
  | ok parsed =>
    cases parsed with
    | blank => rfl
    | label name =>
      change (p.symbols.define name ⟨p.size, line⟩ >>= _) = _
      dsimp only [bind, Except.bind]
      cases p.symbols.define name ⟨p.size, line⟩ <;> rfl
    | instruction mnemonic operands =>
      dsimp only [bind, Except.bind]
      cases encode set mnemonic operands with
      | error problem => rfl
      | ok encoding => exact p.append_draft line encoding

theorem addLines_draft (p : Program) (lines : List (List Char × Nat)) :
    p.draft.addLines set lines = (p.addLines set lines).map draft := by
  induction lines generalizing p with
  | nil => rfl
  | cons numbered rest ih =>
    obtain ⟨text, line⟩ := numbered
    rw [Draft.addLines, addLines, addLine_draft]
    cases p.addLine set line text with
    | error problem => rfl
    | ok q => exact ih q

end

theorem ofSource_eq_addLines (set : InstructionSet) (source : String) :
    ofSource set source = addLines set {} ((Text.lines source.toList).zipIdx 1) := by
  have drafted : Draft.addLines set {} _ = _ :=
    addLines_draft {} ((Text.lines source.toList).zipIdx 1)
  rw [ofSource, drafted]
  cases addLines set {} ((Text.lines source.toList).zipIdx 1) <;> rfl

end Program
end Assembly
end ByteMachine
