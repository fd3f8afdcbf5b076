import ByteMachine.Proofs.Assembly.Source
import ByteMachine.Proofs.Assembly.Spelling

/-!
This module contains how the forms of the mnemonics and an instruction set go together. Whatever
kinds of operand bytes a set gives the opcodes, an encoding has the length and the kinds of bytes
that the set asks for; with the standard set every form can be encoded.
-/

namespace ByteMachine
namespace Assembly

def OnlyForm (mnemonic : String) (kinds : List SourceKind) (op : Opcode) : Prop :=
  ∀ other : Opcode, other.mnemonic = mnemonic ∧ other.sources = kinds ↔ other = op

structure Encoding.Agrees (e : Encoding) (op : Opcode) (instruction : Instruction)
    (operands : List Operand) : Prop where
  opcode : e.bytes.head? = some op.byte
  length : e.bytes.length = instruction.encodedLength
  legal : OperandKind.Accept instruction.operands e.bytes.tail
  consumed : ∃ cells, Fill instruction.operands operands cells ∧
    e.bytes.tail = cells.map Cell.unlinked ∧ e.references = Assembly.references 1 cells
  labels : e.references.map Prod.snd = operands.filterMap Operand.label?
  placeholders : ∀ reference ∈ e.references, ∃ i, reference.1 = i + 1 ∧
    instruction.operands[i]? = some .memoryAddress ∧ e.bytes[i + 1]? = some 0

theorem onlyForm_of_select? {mnemonic : String} {kinds : List SourceKind} {op : Opcode}
    (selected : Opcode.select? mnemonic kinds = some op) : OnlyForm mnemonic kinds op := by
  intro other
  rw [← Opcode.select?_eq_some_iff, selected, Option.some.injEq, eq_comm]

theorem agrees_of_fill {op : Opcode} {instruction : Instruction} {operands : List Operand}
    {cells : List Cell} (fill : Fill instruction.operands operands cells) :
    (Encoding.ofCells (.byte op.byte :: cells)).Agrees op instruction operands where
  opcode := rfl
  length := by
    rw [Encoding.ofCells, List.length_map, List.length_cons, fill.length_eq,
      Instruction.encodedLength, Nat.add_comm]
  legal := fill.accept fun _ => 0
  consumed := ⟨cells, fill, rfl, rfl⟩
  labels := fill.labels_eq 1
  placeholders := by
    rintro ⟨index, name⟩ mem
    have behind : (index, name) ∈ references 1 cells := mem
    obtain ⟨i, place, label⟩ := mem_references_iff_getElem?.1 behind
    refine ⟨i, by omega, fill.kind_of_label label, ?_⟩
    simp [Encoding.ofCells, label, Cell.unlinked, Cell.value]

theorem Operand.eq_register_of_kind {operand : Operand} (kind : operand.kind = .register) :
    ∃ r, operand = .register r := by
  cases operand <;> cases kind
  exact ⟨_, rfl⟩

theorem Serves.exists_cells {sources : List SourceKind} {kinds : List OperandKind}
    (serves : Serves sources kinds) {operands : List Operand}
    (same : operands.map Operand.kind = sources) : ∃ cells, Fill kinds operands cells := by
  induction serves generalizing operands with
  | nil =>
    rw [List.map_eq_nil_iff] at same
    rw [same]
    exact ⟨[], .nil⟩
  | single takes _ ih =>
    obtain ⟨operand, others, rfl, rfl, rest⟩ := List.map_eq_cons_iff.1 same
    obtain ⟨cells, fill⟩ := ih rest
    exact ⟨_, .single operand takes fill⟩
  | pair _ ih =>
    obtain ⟨first, others, rfl, source, tail⟩ := List.map_eq_cons_iff.1 same
    obtain ⟨second, others, rfl, destination, rest⟩ := List.map_eq_cons_iff.1 tail
    obtain ⟨r, rfl⟩ := Operand.eq_register_of_kind source
    obtain ⟨s, rfl⟩ := Operand.eq_register_of_kind destination
    obtain ⟨cells, fill⟩ := ih rest
    exact ⟨_, .pair ⟨r, s⟩ fill⟩

section Standard

variable {mnemonic : String} {operands : List Operand}

theorem encode_standard_of_form {op : Opcode} (form : op.mnemonic = mnemonic)
    (sources : op.sources = operands.map Operand.kind) :
    ∃ e, encode .standard mnemonic operands = .ok e := by
  obtain ⟨cells, fill⟩ := (serves_sources op).exists_cells sources.symm
  have selected := Opcode.select?_eq_some_iff.2 ⟨form, sources⟩
  have found := InstructionSet.lookup_standard_byte op
  exact ⟨_, encode_eq_ok_iff.2 ⟨op, cells, ⟨selected, _, found, fill⟩, rfl⟩⟩

theorem encode_of_unknown {set : InstructionSet} (unknown : ∀ op : Opcode, op.mnemonic ≠ mnemonic) :
    encode set mnemonic operands = .error (.unknownMnemonic mnemonic) := by
  have none : Opcode.forms mnemonic = [] := by
    rw [List.eq_nil_iff_forall_not_mem]
    intro op mem
    exact unknown op (Opcode.mem_forms_iff.1 mem)
  exact if_pos none

theorem encode_of_no_form {set : InstructionSet} (known : ∃ op : Opcode, op.mnemonic = mnemonic)
    (none : ∀ op : Opcode, op.mnemonic = mnemonic → op.sources ≠ operands.map Operand.kind) :
    encode set mnemonic operands =
      .error (.invalidOperands mnemonic (Operand.describe operands)) := by
  obtain ⟨op, form⟩ := known
  have some : Opcode.forms mnemonic ≠ [] := List.ne_nil_of_mem (Opcode.mem_forms_iff.2 form)
  have unselected : Opcode.select? mnemonic (operands.map Operand.kind) = .none := by
    rw [Option.eq_none_iff_forall_ne_some]
    intro op selected
    obtain ⟨form, sources⟩ := Opcode.select?_eq_some_iff.1 selected
    exact none op form sources
  simp only [encode, if_neg some, unselected]
  rfl

end Standard

theorem encoding_agrees_with_set (set : InstructionSet) (mnemonic : String)
    (operands : List Operand) :
    (∀ e, encode set mnemonic operands = .ok e → ∃ op instruction,
      OnlyForm mnemonic (operands.map Operand.kind) op ∧
        set.lookup op.byte = some instruction ∧ e.Agrees op instruction operands) ∧
    ((∃ e, encode .standard mnemonic operands = .ok e) ↔
      ∃ op : Opcode, op.mnemonic = mnemonic ∧ op.sources = operands.map Operand.kind) ∧
    (encode .standard mnemonic operands = .error (.unknownMnemonic mnemonic) ↔
      ∀ op : Opcode, op.mnemonic ≠ mnemonic) ∧
    (encode .standard mnemonic operands =
        .error (.invalidOperands mnemonic (Operand.describe operands)) ↔
      (∃ op : Opcode, op.mnemonic = mnemonic) ∧
        ∀ op : Opcode, op.mnemonic = mnemonic → op.sources ≠ operands.map Operand.kind) := by
  refine ⟨?_, ?_, ?_, ?_⟩
  . intro e encoded
    obtain ⟨op, cells, ⟨selected, instruction, found, fill⟩, rfl⟩ := encode_eq_ok_iff.1 encoded
    exact ⟨op, instruction, onlyForm_of_select? selected, found, agrees_of_fill fill⟩
  . constructor
    . rintro ⟨e, encoded⟩
      obtain ⟨op, cells, encodes, rfl⟩ := encode_eq_ok_iff.1 encoded
      exact ⟨op, Opcode.select?_eq_some_iff.1 encodes.selected⟩
    . rintro ⟨op, form, sources⟩
      exact encode_standard_of_form form sources
  . constructor
    . intro failed op form
      by_cases encoded : ∃ op : Opcode,
          op.mnemonic = mnemonic ∧ op.sources = operands.map Operand.kind
      . obtain ⟨op, form, sources⟩ := encoded
        obtain ⟨e, encoded⟩ := encode_standard_of_form form sources
        rw [encoded] at failed
        contradiction
      . rw [encode_of_no_form ⟨op, form⟩] at failed
        . cases failed
        . intro op form sources
          exact encoded ⟨op, form, sources⟩
    . exact encode_of_unknown
  . constructor
    . intro failed
      constructor
      . by_contra unknown
        rw [encode_of_unknown (not_exists.1 unknown)] at failed
        cases failed
      . intro op form sources
        obtain ⟨e, encoded⟩ := encode_standard_of_form form sources
        rw [encoded] at failed
        contradiction
    . rintro ⟨known, none⟩
      exact encode_of_no_form known none

def unpaired : InstructionSet :=
  ⟨fun byte =>
    if byte = Opcode.add.byte then
      some { Opcode.add.instruction with operands := [.register, .register] }
    else
      none⟩

theorem encoding_agrees_with_set_unpaired :
    encode unpaired "ADD" [.register ⟨1⟩, .register ⟨2⟩] = .ok ⟨[0x10, 1, 2], []⟩ ∧
      ∃ op instruction, OnlyForm "ADD" [.register, .register] op ∧
        unpaired.lookup op.byte = some instruction ∧
        Encoding.Agrees ⟨[0x10, 1, 2], []⟩ op instruction [.register ⟨1⟩, .register ⟨2⟩] := by
  have encoded : encode unpaired "ADD" [.register ⟨1⟩, .register ⟨2⟩] = .ok ⟨[0x10, 1, 2], []⟩ := by
    rfl
  exact ⟨encoded, (encoding_agrees_with_set unpaired "ADD" _).1 _ encoded⟩

end Assembly
end ByteMachine
