import ByteMachine.Assembly.Encoding
import ByteMachine.Proofs.Instruction

/-!
This module contains what an encoding is made of: a cell for each operand byte, which holds a byte
or is to hold the address of a label.
-/

namespace ByteMachine

def OperandKind.takes : OperandKind → Assembly.SourceKind → Bool
  | .constant, .constant => true
  | .memoryAddress, .memory => true
  | .register, .register => true
  | .register, .registerMemory => true
  | _, _ => false

namespace Opcode

theorem mem_forms_iff {mnemonic : String} {op : Opcode} :
    op ∈ forms mnemonic ↔ op.mnemonic = mnemonic := by
  simp [forms, mem_all]

theorem select?_eq_some_iff {mnemonic : String} {kinds : List Assembly.SourceKind} {op : Opcode} :
    select? mnemonic kinds = some op ↔ op.mnemonic = mnemonic ∧ op.sources = kinds := by
  constructor
  . intro selected
    have form := List.mem_of_find?_eq_some selected
    have kinds := List.find?_some selected
    exact ⟨mem_forms_iff.1 form, by simpa using kinds⟩
  . rintro ⟨rfl, rfl⟩
    exact select?_mnemonic_sources op

end Opcode

namespace Assembly

inductive Cell where
  | byte (value : UInt8)
  | label (name : String)
deriving DecidableEq

def Cell.value (address : String → UInt8) : Cell → UInt8
  | .byte value => value
  | .label name => address name

def Cell.unlinked (cell : Cell) : UInt8 :=
  cell.value fun _ => 0

def Operand.cell : Operand → Cell
  | .label name => .label name
  | operand => .byte operand.byte

def references (position : Nat) : List Cell → List (Nat × String)
  | [] => []
  | .byte _ :: rest => references (position + 1) rest
  | .label name :: rest => (position, name) :: references (position + 1) rest

theorem references_append (position : Nat) (before after : List Cell) :
    references position (before ++ after) =
      references position before ++ references (position + before.length) after := by
  induction before generalizing position with
  | nil => rfl
  | cons cell before ih =>
    have place : position + 1 + before.length = position + (before.length + 1) := by omega
    cases cell <;> simp [references, ih, place]

theorem references_add (position offset : Nat) (cells : List Cell) :
    (references position cells).map (fun (i, name) => (offset + i, name)) =
      references (offset + position) cells := by
  induction cells generalizing position with
  | nil => rfl
  | cons cell cells ih => cases cell <;> simp [references, ih, Nat.add_assoc]

theorem mem_references_iff (position : Nat) {cells : List Cell} {name : String} :
    (∃ index, (index, name) ∈ references position cells) ↔ .label name ∈ cells := by
  induction cells generalizing position with
  | nil => simp [references]
  | cons cell cells ih =>
    cases cell with
    | byte value => simpa [references] using ih (position + 1)
    | label first =>
      have rest := ih (position + 1)
      simp only [references, List.mem_cons, Prod.mk.injEq, exists_or, rest, Cell.label.injEq]
      simp

theorem mem_references_iff_getElem? {position index : Nat} {cells : List Cell} {name : String} :
    (index, name) ∈ references position cells ↔
      ∃ i, index = position + i ∧ cells[i]? = some (.label name) := by
  induction cells generalizing position with
  | nil => simp [references]
  | cons cell cells ih =>
    have first_or_later :
        (∃ i, index = position + i ∧ (cell :: cells)[i]? = some (.label name)) ↔
          (index = position ∧ cell = .label name) ∨
            (index, name) ∈ references (position + 1) cells := by
      rw [ih]
      constructor
      . rintro ⟨i, rfl, found⟩
        cases i with
        | zero => exact .inl ⟨rfl, by simpa using found⟩
        | succ i => exact .inr ⟨i, by omega, by simpa using found⟩
      . rintro (⟨rfl, rfl⟩ | ⟨i, rfl, found⟩)
        . exact ⟨0, rfl, rfl⟩
        . exact ⟨i + 1, by omega, by simpa using found⟩
    rw [first_or_later]
    cases cell <;> simp [references, eq_comm]

theorem pairwise_references (position : Nat) (cells : List Cell) :
    (references position cells).Pairwise (·.1 < ·.1) := by
  induction cells generalizing position with
  | nil => exact .nil
  | cons cell cells ih =>
    cases cell with
    | byte value => exact ih (position + 1)
    | label name =>
      refine .cons ?_ (ih (position + 1))
      rintro ⟨index, other⟩ mem
      obtain ⟨i, later, -⟩ := mem_references_iff_getElem?.1 mem
      show position < index
      omega

/--
The operands, in order, make the operand bytes of these kinds; a register pair takes two.
-/
inductive Fill : List OperandKind → List Operand → List Cell → Prop where
  | nil : Fill [] [] []
  | single {kinds : List OperandKind} {operands : List Operand} {cells : List Cell}
      {kind : OperandKind} (operand : Operand) (takes : kind.takes operand.kind) :
      Fill kinds operands cells → Fill (kind :: kinds) (operand :: operands) (operand.cell :: cells)
  | pair {kinds : List OperandKind} {operands : List Operand} {cells : List Cell}
      (p : RegisterPair) :
      Fill kinds operands cells →
        Fill (.registerPair :: kinds) (.register p.source :: .register p.destination :: operands)
          (.byte p.toByte :: cells)

namespace Fill

variable {kinds : List OperandKind} {operands : List Operand} {cells : List Cell}

theorem length_eq (fill : Fill kinds operands cells) : cells.length = kinds.length := by
  induction fill with
  | nil => rfl
  | single operand takes _ ih => simp [ih]
  | pair p _ ih => simp [ih]

theorem accepts_cell {kind : OperandKind} {operand : Operand} (takes : kind.takes operand.kind)
    (address : String → UInt8) : kind.accepts (operand.cell.value address) := by
  cases operand <;> cases kind <;> simp_all [OperandKind.takes, Operand.kind]
  all_goals exact OperandKind.accepts_register_iff.2 ⟨_, rfl⟩

theorem accept (fill : Fill kinds operands cells) (address : String → UInt8) :
    OperandKind.Accept kinds (cells.map (Cell.value address)) := by
  induction fill with
  | nil => exact .nil
  | single operand takes _ ih => exact .cons (accepts_cell takes address) ih
  | pair p _ ih => exact .cons (OperandKind.accepts_registerPair_iff.2 ⟨p, rfl⟩) ih

theorem getLast?_label (fill : Fill kinds operands cells) {name : String}
    (last : operands.getLast? = some (.label name)) : cells.getLast? = some (.label name) := by
  induction fill with
  | nil => contradiction
  | @single _ operands cells _ operand _ fill ih =>
    cases operands with
    | nil =>
      cases fill
      rw [List.getLast?_singleton, Option.some.injEq] at last
      rw [last]
      rfl
    | cons second operands =>
      rw [List.getLast?_cons_cons] at last
      cases cells with
      | nil => cases fill
      | cons cell cells =>
        rw [List.getLast?_cons_cons]
        exact ih last
  | @pair _ operands cells p fill ih =>
    cases operands with
    | nil => simp at last
    | cons second operands =>
      rw [List.getLast?_cons_cons, List.getLast?_cons_cons] at last
      cases cells with
      | nil => cases fill
      | cons cell cells =>
        rw [List.getLast?_cons_cons]
        exact ih last

theorem singleton_iff {kind : OperandKind} {cell : Cell} :
    Fill [kind] operands [cell] ↔
      (∃ operand, kind.takes operand.kind ∧ operands = [operand] ∧ cell = operand.cell) ∨
        (kind = .registerPair ∧ ∃ p : RegisterPair,
          operands = [.register p.source, .register p.destination] ∧ cell = .byte p.toByte) := by
  constructor
  . intro fill
    cases fill with
    | single operand takes rest =>
      cases rest
      exact .inl ⟨operand, takes, rfl, rfl⟩
    | pair p rest =>
      cases rest
      exact .inr ⟨rfl, p, rfl, rfl⟩
  . rintro (⟨operand, takes, rfl, rfl⟩ | ⟨rfl, p, rfl, rfl⟩)
    . exact .single operand takes .nil
    . exact .pair p .nil

theorem cons_iff {kind : OperandKind} :
    Fill (kind :: kinds) operands cells ↔
      ∃ taken rest cell others, Fill [kind] taken [cell] ∧ Fill kinds rest others ∧
        operands = taken ++ rest ∧ cells = cell :: others := by
  constructor
  . intro fill
    cases fill with
    | single operand takes fill =>
      exact ⟨_, _, _, _, .single operand takes .nil, fill, rfl, rfl⟩
    | pair p fill => exact ⟨_, _, _, _, .pair p .nil, fill, rfl, rfl⟩
  . rintro ⟨taken, rest, cell, others, first, fill, rfl, rfl⟩
    rcases singleton_iff.1 first with ⟨operand, takes, rfl, rfl⟩ | ⟨rfl, p, rfl, rfl⟩
    . exact .single operand takes fill
    . exact .pair p fill

end Fill

namespace Cursor

def Took (c : Cursor) (taken : List Operand) (d : Cursor) : Prop :=
  c = { d with rest := taken ++ d.rest }

theorem Took.trans {c d f : Cursor} {first second : List Operand} (h : c.Took first d)
    (k : d.Took second f) : c.Took (first ++ second) f := by
  rw [Took] at h k ⊢
  rw [h, k, List.append_assoc]

theorem took_append_iff {c f : Cursor} {first second : List Operand} :
    c.Took (first ++ second) f ↔ ∃ d : Cursor, c.Took first d ∧ d.Took second f := by
  constructor
  . intro h
    refine ⟨{ f with rest := second ++ f.rest }, ?_, rfl⟩
    rw [Took, h, List.append_assoc]
  . rintro ⟨d, h, k⟩
    exact h.trans k

theorem expect_eq_ok_iff {c d : Cursor} {kind : SourceKind} {operand : Operand} :
    c.expect kind = .ok (operand, d) ↔ operand.kind = kind ∧ c.Took [operand] d := by
  obtain ⟨mnemonic, operands, rest⟩ := c
  obtain ⟨mnemonic', operands', rest'⟩ := d
  cases rest with
  | nil => simp [expect, Took]
  | cons first rest =>
    simp only [expect, Took, mk.injEq, List.singleton_append, List.cons.injEq]
    constructor
    . intro h
      split at h
      . next fits =>
        cases h
        exact ⟨fits, rfl, rfl, rfl, rfl⟩
      . contradiction
    . rintro ⟨fits, rfl, rfl, rfl, rfl⟩
      rw [if_pos fits]

theorem expectRegister_eq_ok_iff {c d : Cursor} {r : Register} :
    c.expectRegister = .ok (r, d) ↔ c.Took [.register r] d := by
  obtain ⟨mnemonic, operands, rest⟩ := c
  obtain ⟨mnemonic', operands', rest'⟩ := d
  simp only [expectRegister, Took, mk.injEq, List.singleton_append]
  constructor
  . intro h
    split at h
    . cases h
      exact ⟨rfl, rfl, rfl⟩
    . contradiction
  . rintro ⟨rfl, rfl, rfl⟩
    rfl

theorem peek?_of_took {c d : Cursor} {operand : Operand} (took : c.Took [operand] d) :
    c.peek? = some operand.kind := by
  rw [took]
  rfl

end Cursor

namespace Encoding

def ofCells (cells : List Cell) : Encoding where
  bytes := cells.map Cell.unlinked
  references := Assembly.references 0 cells

def linked (address : String → UInt8) (e : Encoding) : List UInt8 :=
  e.references.foldl (fun bytes (index, label) => bytes.set index (address label)) e.bytes

theorem linked_ofCells (address : String → UInt8) (cells : List Cell) :
    (ofCells cells).linked address = cells.map (Cell.value address) := by
  have behind : ∀ done : List UInt8,
      (Assembly.references done.length cells).foldl
          (fun bytes (index, label) => bytes.set index (address label))
          (done ++ cells.map Cell.unlinked) =
        done ++ cells.map (Cell.value address) := by
    induction cells with
    | nil => simp [Assembly.references]
    | cons cell cells ih =>
      intro done
      have rest := ih (done ++ [cell.value address])
      rw [List.length_append, List.length_singleton] at rest
      cases cell <;> simpa [Assembly.references, Cell.unlinked, Cell.value] using rest
  exact behind []

theorem length_linked (address : String → UInt8) (e : Encoding) :
    (e.linked address).length = e.bytes.length := by
  rw [linked]
  generalize e.bytes = bytes
  induction e.references generalizing bytes with
  | nil => rfl
  | cons reference references ih => rw [List.foldl_cons, ih, List.length_set]

def put (e : Encoding) (cell : Cell) : Encoding where
  bytes := e.bytes ++ [cell.unlinked]
  references := e.references ++ Assembly.references e.bytes.length [cell]

theorem add_eq_put (e : Encoding) (operand : Operand) : e.add operand = e.put operand.cell := by
  cases operand <;> simp [add, put, Operand.cell, Assembly.references, Cell.unlinked, Cell.value,
    Operand.byte]

theorem expect_add_eq_ok_iff {e e' : Encoding} {c d : Cursor} {kind : SourceKind} :
    (do let (operand, c) ← c.expect kind; return (e.add operand, c)) = Except.ok (e', d) ↔
      ∃ operand, operand.kind = kind ∧ c.Took [operand] d ∧ e' = e.put operand.cell := by
  simp only [bind_eq_ok_iff, Prod.exists, Cursor.expect_eq_ok_iff, add_eq_put]
  constructor
  . rintro ⟨operand, d, ⟨fits, took⟩, ⟨⟩⟩
    exact ⟨operand, fits, took, rfl⟩
  . rintro ⟨operand, fits, took, rfl⟩
    exact ⟨operand, d, ⟨fits, took⟩, rfl⟩

theorem take_single {e e' : Encoding} {c d : Cursor} {kind : OperandKind}
    (single : kind ≠ .registerPair) :
    e.take c kind = .ok (e', d) ↔
      ∃ operand, kind.takes operand.kind ∧ c.Took [operand] d ∧ e' = e.put operand.cell := by
  cases kind with
  | constant | memoryAddress =>
    rw [take, expect_add_eq_ok_iff]
    apply exists_congr
    intro operand
    cases operand.kind <;> simp [OperandKind.takes]
  | register =>
    -- which of its two kinds of source it is, the cursor finds out by looking ahead
    simp only [take, expect_add_eq_ok_iff]
    apply exists_congr
    intro operand
    simp only [← and_assoc]
    apply and_congr_left
    rintro -
    apply and_congr_left
    intro took
    rw [Cursor.peek?_of_took took]
    cases operand.kind <;> simp [OperandKind.takes]
  | registerPair => contradiction

theorem take_eq_ok_iff {e e' : Encoding} {c d : Cursor} {kind : OperandKind} :
    e.take c kind = .ok (e', d) ↔
      ∃ taken cell, Fill [kind] taken [cell] ∧ c.Took taken d ∧ e' = e.put cell := by
  simp only [Fill.singleton_iff]
  by_cases pair : kind = .registerPair
  . subst pair
    have none : ∀ source, OperandKind.registerPair.takes source = false := by
      intro source
      cases source <;> rfl
    simp only [take, bind_eq_ok_iff, Prod.exists, Cursor.expectRegister_eq_ok_iff, none]
    constructor
    . rintro ⟨source, c, first, destination, d, second, ⟨⟩⟩
      refine ⟨_, _, .inr ⟨trivial, ⟨source, destination⟩, rfl, rfl⟩, first.trans second, ?_⟩
      simp [put, Assembly.references, Cell.unlinked, Cell.value]
    . rintro ⟨_, _, ⟨_, ⟨⟩, -⟩ | ⟨-, p, rfl, rfl⟩, took, rfl⟩
      have both : c.Took ([.register p.source] ++ [.register p.destination]) d := took
      obtain ⟨f, first, second⟩ := Cursor.took_append_iff.1 both
      refine ⟨p.source, f, first, p.destination, d, second, ?_⟩
      simp [put, Assembly.references, Cell.unlinked, Cell.value]
      rfl
  . rw [take_single pair]
    constructor
    . rintro ⟨operand, takes, took, rfl⟩
      exact ⟨_, _, .inl ⟨operand, takes, rfl, rfl⟩, took, rfl⟩
    . rintro ⟨_, _, ⟨operand, takes, rfl, rfl⟩ | ⟨same, -⟩, took, rfl⟩
      . exact ⟨operand, takes, took, rfl⟩
      . contradiction

theorem takeAll_eq_ok_iff {e e' : Encoding} {c d : Cursor} {kinds : List OperandKind} :
    e.takeAll c kinds = .ok (e', d) ↔
      ∃ taken cells, Fill kinds taken cells ∧ c.Took taken d ∧ e' = cells.foldl put e := by
  induction kinds generalizing e c with
  | nil =>
    simp only [takeAll]
    constructor
    . intro h
      cases h
      exact ⟨[], [], .nil, rfl, rfl⟩
    . rintro ⟨taken, cells, fill, took, rfl⟩
      cases fill
      rw [took]
      rfl
  | cons kind kinds ih =>
    simp only [takeAll, bind_eq_ok_iff, Prod.exists, take_eq_ok_iff, ih]
    constructor
    . rintro ⟨e, d, ⟨taken, cell, first, took, rfl⟩, others, cells, fill, rest, rfl⟩
      have whole := Fill.cons_iff.2 ⟨taken, others, cell, cells, first, fill, rfl, rfl⟩
      exact ⟨_, _, whole, took.trans rest, rfl⟩
    . rintro ⟨_, _, whole, took, rfl⟩
      obtain ⟨taken, others, cell, cells, first, fill, rfl, rfl⟩ := Fill.cons_iff.1 whole
      obtain ⟨f, took, rest⟩ := Cursor.took_append_iff.1 took
      exact ⟨_, f, ⟨taken, cell, first, took, rfl⟩, others, cells, fill, rest, rfl⟩

theorem foldl_put (e : Encoding) (cells : List Cell) :
    cells.foldl put e =
      { bytes := e.bytes ++ cells.map Cell.unlinked
        references := e.references ++ Assembly.references e.bytes.length cells } := by
  induction cells generalizing e with
  | nil => simp [Assembly.references]
  | cons cell cells ih =>
    have place := Assembly.references_append e.bytes.length [cell] cells
    rw [List.singleton_append] at place
    rw [List.foldl_cons, ih, place]
    simp [put]

end Encoding

structure Encodes (set : InstructionSet) (mnemonic : String) (operands : List Operand)
    (op : Opcode) (cells : List Cell) : Prop where
  selected : Opcode.select? mnemonic (operands.map Operand.kind) = some op
  fill : ∃ instruction, set.lookup op.byte = some instruction ∧
    Fill instruction.operands operands cells

theorem forms_ne_nil {mnemonic : String} {kinds : List SourceKind} {op : Opcode}
    (selected : Opcode.select? mnemonic kinds = some op) : Opcode.forms mnemonic ≠ [] := by
  intro none
  rw [Opcode.select?, none] at selected
  contradiction

theorem finish_eq_ok_iff {c : Cursor} : c.finish = .ok () ↔ c.rest = [] := by
  rw [Cursor.finish]
  split
  . next done => simp [done]
  . next left => simp [left]

theorem encodeForm_eq_ok_iff {set : InstructionSet} {op : Opcode} {mnemonic : String}
    {operands : List Operand} {e : Encoding} :
    encodeForm set op (.new mnemonic operands) = .ok e ↔
      ∃ instruction cells, set.lookup op.byte = some instruction ∧
        Fill instruction.operands operands cells ∧ e = .ofCells (.byte op.byte :: cells) := by
  rw [encodeForm]
  cases found : set.lookup op.byte with
  | none => simp
  | some instruction =>
    simp only [bind_eq_ok_iff, Prod.exists, Encoding.takeAll_eq_ok_iff, Encoding.foldl_put]
    constructor
    . rintro ⟨_, d, ⟨taken, cells, fill, took, rfl⟩, ⟨⟩, finished, ⟨⟩⟩
      have all : operands = taken ++ d.rest := congrArg Cursor.rest took
      rw [finish_eq_ok_iff.1 finished, List.append_nil] at all
      rw [← all] at fill
      exact ⟨instruction, cells, rfl, fill, rfl⟩
    . rintro ⟨_, cells, ⟨⟩, fill, rfl⟩
      refine ⟨_, ⟨mnemonic, operands, []⟩, ⟨operands, cells, fill, ?_, rfl⟩, (), rfl, rfl⟩
      rw [Cursor.Took, List.append_nil]
      rfl

theorem encode_eq_ok_iff {set : InstructionSet} {mnemonic : String} {operands : List Operand}
    {e : Encoding} :
    encode set mnemonic operands = .ok e ↔
      ∃ op cells, Encodes set mnemonic operands op cells ∧
        e = .ofCells (.byte op.byte :: cells) := by
  simp only [encode]
  constructor
  . intro encoded
    split at encoded
    . contradiction
    . split at encoded
      . next op selected =>
        obtain ⟨instruction, cells, found, fill, rfl⟩ := encodeForm_eq_ok_iff.1 encoded
        exact ⟨op, cells, ⟨selected, instruction, found, fill⟩, rfl⟩
      . contradiction
  . rintro ⟨op, cells, ⟨selected, instruction, found, fill⟩, rfl⟩
    rw [if_neg (forms_ne_nil selected), selected]
    exact encodeForm_eq_ok_iff.2 ⟨instruction, cells, found, fill, rfl⟩

end Assembly
end ByteMachine
