import ByteMachine.Proofs.Assembly.Layout

/-!
This module contains the layout of a whole source: which chunks, labels and fixups its lines have,
and where they are.
-/

namespace ByteMachine
namespace Assembly

namespace Operand

def label? : Operand → Option String
  | .label name => some name
  | _ => none

def withAddress (address : String → UInt8) : Operand → Operand
  | .label name => .memory (address name)
  | operand => operand

@[simp]
theorem kind_withAddress (address : String → UInt8) (operand : Operand) :
    (operand.withAddress address).kind = operand.kind := by
  cases operand <;> rfl

@[simp]
theorem cell_withAddress (address : String → UInt8) (operand : Operand) :
    (operand.withAddress address).cell = .byte (operand.cell.value address) := by
  cases operand <;> rfl

end Operand

namespace Fill

variable {kinds : List OperandKind} {operands : List Operand} {cells : List Cell}

theorem labels_eq (fill : Fill kinds operands cells) (position : Nat) :
    (references position cells).map Prod.snd = operands.filterMap Operand.label? := by
  induction fill generalizing position with
  | nil => rfl
  | single operand takes _ ih =>
    cases operand <;> simp [references, Operand.cell, Operand.label?, List.filterMap_cons, ih]
  | pair p _ ih => simp [references, Operand.label?, List.filterMap_cons, ih]

theorem kind_of_label (fill : Fill kinds operands cells) {i : Nat} {name : String}
    (found : cells[i]? = some (.label name)) : kinds[i]? = some .memoryAddress := by
  induction fill generalizing i with
  | nil => contradiction
  | @single _ _ _ kind operand takes _ ih =>
    cases i with
    | zero =>
      rw [List.getElem?_cons_zero, Option.some.injEq] at found
      cases operand <;> cases found
      cases kind <;> first | rfl | contradiction
    | succ i => exact ih found
  | pair p _ ih =>
    cases i with
    | zero => cases found
    | succ i => exact ih found

theorem withAddress (fill : Fill kinds operands cells) (address : String → UInt8) :
    Fill kinds (operands.map (Operand.withAddress address))
      (cells.map fun cell => .byte (cell.value address)) := by
  induction fill with
  | nil => exact .nil
  | single operand takes _ ih =>
    have := Fill.single (operand.withAddress address) (by rwa [Operand.kind_withAddress]) ih
    rwa [Operand.cell_withAddress] at this
  | pair p _ ih => exact .pair p ih

end Fill

theorem encode_withAddress {set : InstructionSet} {mnemonic : String} {operands : List Operand}
    {e : Encoding} (encoded : encode set mnemonic operands = .ok e) (address : String → UInt8) :
    ∃ direct, encode set mnemonic (operands.map (Operand.withAddress address)) = .ok direct ∧
      direct.bytes = e.linked address := by
  obtain ⟨op, cells, ⟨selected, instruction, found, fill⟩, rfl⟩ := encode_eq_ok_iff.1 encoded
  have kinds : (operands.map (Operand.withAddress address)).map Operand.kind =
      operands.map Operand.kind := by
    simp
  refine ⟨_, encode_eq_ok_iff.2 ⟨op, _, ⟨kinds ▸ selected, instruction, found,
    fill.withAddress address⟩, rfl⟩, ?_⟩
  rw [Encoding.linked_ofCells, Encoding.ofCells, List.map_cons, List.map_cons, List.map_map]
  rfl

def numberedLines (source : String) : List (List Char × Nat) :=
  (Text.lines source.toList).zipIdx 1

theorem pairwise_numberedLines (source : String) :
    (numberedLines source).Pairwise (·.2 < ·.2) := by
  have numbers := List.pairwise_lt_range' (s := 1) (n := (Text.lines source.toList).length)
  rw [← List.zipIdx_map_snd, List.pairwise_map] at numbers
  exact numbers

namespace Line

def Encodable (set : InstructionSet) : Line → Prop
  | .instruction mnemonic operands => ∃ encoding, encode set mnemonic operands = .ok encoding
  | _ => True

def references : Line → List String
  | .instruction _ operands => operands.filterMap Operand.label?
  | _ => []

/--
The bytes of a line in which each label that is referred to has been replaced by the memory cell at
its address.
-/
def direct (set : InstructionSet) (address : String → UInt8) : Line → Except Problem (List UInt8)
  | .instruction mnemonic operands => do
    let encoding ← encode set mnemonic (operands.map (Operand.withAddress address))
    return encoding.bytes
  | _ => .ok []

end Line

def referencesOf (text : List Char) : List String :=
  match parseLine text with
  | .ok line => line.references
  | .error _ => []

def directOf (set : InstructionSet) (address : String → UInt8) (text : List Char) :
    Except Problem (List UInt8) := do
  (← parseLine text).direct set address

theorem directOf_of_parse {set : InstructionSet} {address : String → UInt8} {text : List Char}
    {line : Line} (parses : parseLine text = .ok line) :
    directOf set address text = line.direct set address := by
  rw [directOf, parses]
  rfl

def Accepted (set : InstructionSet) (text : List Char) : Prop :=
  ∃ line, parseLine text = .ok line ∧ line.Encodable set

namespace Item

variable {set : InstructionSet} {lines : List (List Char × Nat)}

theorem ofLine?_of_accepted {text : List Char} (line : Nat) (accepted : Accepted set text) :
    (∃ mnemonic operands encoding, parseLine text = .ok (.instruction mnemonic operands) ∧
      encode set mnemonic operands = .ok encoding ∧
      ofLine? set (text, line) = some ⟨line, encoding⟩) ∨
    (ofLine? set (text, line) = none ∧ referencesOf text = [] ∧
      ∀ address, directOf set address text = .ok []) := by
  obtain ⟨parsed, parses, encodable⟩ := accepted
  cases parsed with
  | blank =>
    exact .inr ⟨by simp [ofLine?, parses], by simp [referencesOf, parses, Line.references],
      fun _ => directOf_of_parse parses⟩
  | label name =>
    exact .inr ⟨by simp [ofLine?, parses], by simp [referencesOf, parses, Line.references],
      fun _ => directOf_of_parse parses⟩
  | instruction mnemonic operands =>
    obtain ⟨encoding, encoded⟩ := encodable
    exact .inl ⟨mnemonic, operands, encoding, parses, encoded, by simp [ofLine?, parses, encoded]⟩

theorem line_of_ofLine? {text : List Char × Nat} {item : Item}
    (found : ofLine? set text = some item) : item.line = text.2 := by
  obtain ⟨_, _, _, _, line⟩ := ofLine?_eq_some_iff.1 found
  exact line

theorem pairwise_ofLines (increasing : lines.Pairwise (·.2 < ·.2)) :
    (ofLines set lines).Pairwise (·.line < ·.line) := by
  rw [ofLines, List.pairwise_filterMap]
  apply increasing.imp
  intro text later less item found other found_later
  rw [line_of_ofLine? found, line_of_ofLine? found_later]
  exact less

theorem map_fixups (offset : Nat) (items : List Item) :
    (fixups offset items).map (fun fixup => (fixup.line, fixup.label)) =
      items.flatMap fun item => item.encoding.references.map fun reference =>
        (item.line, reference.2) := by
  induction items generalizing offset with
  | nil => rfl
  | cons item items ih =>
    rw [fixups, List.map_append, ih, List.flatMap_cons, List.map_map]
    rfl

theorem flatMap_references_ofLines (accepted : ∀ text ∈ lines, Accepted set text.1) :
    ((ofLines set lines).flatMap fun item => item.encoding.references.map fun reference =>
        (item.line, reference.2)) =
      lines.flatMap fun text => (referencesOf text.1).map (text.2, ·) := by
  induction lines with
  | nil => rfl
  | cons text lines ih =>
    rw [List.forall_mem_cons] at accepted
    have rest := ih accepted.2
    rw [ofLines] at rest
    rw [ofLines, List.filterMap_cons, List.flatMap_cons, ← rest]
    rcases ofLine?_of_accepted text.2 accepted.1 with
      ⟨mnemonic, operands, encoding, parses, encoded, found⟩ | ⟨found, silent, -⟩
    . obtain ⟨op, cells, ⟨_, _, _, fill⟩, rfl⟩ := encode_eq_ok_iff.1 encoded
      have labels := fill.labels_eq 1
      simp only [found, List.flatMap_cons, referencesOf, parses, Line.references, ← labels,
        List.map_map]
      rfl
    . simp only [found, silent, List.map_nil, List.nil_append]

theorem mapM_direct (accepted : ∀ text ∈ lines, Accepted set text.1) (address : String → UInt8) :
    ∃ pieces, (lines.map Prod.fst).mapM (directOf set address) = .ok pieces ∧
      (ofLines set lines).flatMap (·.encoding.linked address) = pieces.flatten := by
  induction lines with
  | nil => exact ⟨[], rfl, rfl⟩
  | cons text lines ih =>
    rw [List.forall_mem_cons] at accepted
    obtain ⟨pieces, made, linked⟩ := ih accepted.2
    rw [ofLines] at linked
    rw [ofLines, List.filterMap_cons, List.map_cons, List.mapM_cons, made]
    rcases ofLine?_of_accepted text.2 accepted.1 with
      ⟨mnemonic, operands, encoding, parses, encoded, found⟩ | ⟨found, -, empty⟩
    . obtain ⟨direct, encoded_direct, bytes⟩ := encode_withAddress encoded address
      have first : directOf set address text.1 = .ok direct.bytes := by
        rw [directOf_of_parse parses, Line.direct, encoded_direct]
        rfl
      refine ⟨direct.bytes :: pieces, by rw [first]; rfl, ?_⟩
      simp only [found, List.flatMap_cons, linked, bytes, List.flatten_cons]
    . refine ⟨[] :: pieces, by rw [empty]; rfl, ?_⟩
      simp only [found, linked, List.flatten_cons, List.nil_append]

theorem mem_fixups_iff {offset : Nat} {items : List Item} {fixup : Fixup} :
    fixup ∈ fixups offset items ↔
      ∃ before item after index, items = before ++ item :: after ∧
        (index, fixup.label) ∈ item.encoding.references ∧ fixup.line = item.line ∧
        fixup.offset = offset + size before + index := by
  constructor
  . intro mem
    induction items generalizing offset with
    | nil => contradiction
    | cons item items ih =>
      rw [fixups, List.mem_append, List.mem_map] at mem
      rcases mem with ⟨⟨index, label⟩, mem, rfl⟩ | mem
      . exact ⟨[], item, items, index, rfl, mem, rfl, rfl⟩
      . obtain ⟨before, other, after, index, rfl, mem, line, place⟩ := ih mem
        refine ⟨item :: before, other, after, index, rfl, mem, line, ?_⟩
        rw [place, size_cons]
        omega
  . rintro ⟨before, item, after, index, rfl, mem, line, place⟩
    rw [fixups_append, fixups, List.mem_append, List.mem_append, List.mem_map]
    refine .inr (.inl ⟨(index, fixup.label), mem, ?_⟩)
    show Fixup.mk item.line (offset + size before + index) fixup.label = fixup
    rw [← line, ← place]

theorem lt_of_mem_references {set : InstructionSet} {lines : List (List Char × Nat)} {item : Item}
    (mem : item ∈ ofLines set lines) {index : Nat} {name : String}
    (reference : (index, name) ∈ item.encoding.references) :
    index < item.encoding.bytes.length := by
  obtain ⟨op, cells, made⟩ := made_of_mem_ofLines mem
  rw [made, Encoding.ofCells] at reference
  obtain ⟨i, rfl, found⟩ := mem_references_iff_getElem?.1 reference
  rw [made, Encoding.ofCells, List.length_map, Nat.zero_add]
  exact (List.getElem?_eq_some_iff.1 found).1

theorem pairwise_fixups {set : InstructionSet} {lines : List (List Char × Nat)} (offset : Nat)
    {items : List Item} (sublist : items.Sublist (ofLines set lines)) :
    (fixups offset items).Pairwise (·.offset < ·.offset) := by
  induction items generalizing offset with
  | nil => exact .nil
  | cons item items ih =>
    have mem : item ∈ ofLines set lines := sublist.subset (by simp)
    rw [fixups, List.pairwise_append]
    refine ⟨?_, ih _ ((List.sublist_cons_self item items).trans sublist), ?_⟩
    . obtain ⟨op, cells, made⟩ := made_of_mem_ofLines mem
      rw [made, List.pairwise_map]
      apply (pairwise_references 0 _).imp
      intro reference later less
      exact Nat.add_lt_add_left less offset
    . intro fixup first later rest
      rw [List.mem_map] at first
      obtain ⟨⟨index, name⟩, reference, rfl⟩ := first
      obtain ⟨before, _, _, _, _, _, _, place⟩ := mem_fixups_iff.1 rest
      have inside := lt_of_mem_references mem reference
      show offset + index < later.offset
      omega

theorem map_chunks (offset : Nat) (items : List Item) :
    (chunks offset items).map (fun chunk => (chunk.line, chunk.bytes)) =
      items.map fun item => (item.line, item.encoding.bytes) := by
  induction items generalizing offset with
  | nil => rfl
  | cons item items ih => rw [chunks, List.map_cons, ih, List.map_cons]

theorem length_flatMap_chunks (offset : Nat) (items : List Item) :
    ((chunks offset items).flatMap Chunk.bytes).length = size items := by
  rw [flatMap_bytes_chunks, size]

theorem offset_of_getElem?_chunks {offset i : Nat} {items : List Item} {chunk : Chunk}
    (found : (chunks offset items)[i]? = some chunk) :
    chunk.offset = offset + (((chunks offset items).take i).flatMap Chunk.bytes).length := by
  induction items generalizing offset i with
  | nil => contradiction
  | cons item items ih =>
    cases i with
    | zero =>
      cases found
      rfl
    | succ i =>
      rw [chunks, List.getElem?_cons_succ] at found
      rw [ih found, chunks, List.take_succ_cons, List.flatMap_cons, List.length_append,
        Nat.add_assoc]

end Item

namespace Program

variable {set : InstructionSet} {lines : List (List Char × Nat)} {p q : Program}

structure Recorded (set : InstructionSet) (lines : List (List Char × Nat)) (p : Program) :
    Prop where
  accepted : ∀ text ∈ lines, Accepted set text.1
  declared : ∀ text ∈ lines, ∀ name, parseLine text.1 = .ok (.label name) →
    ∃ symbol, p.symbols.get? name = some symbol ∧ symbol.line = text.2

namespace Recorded

theorem snoc (recorded : Recorded set lines p) {text : List Char} {line : Nat}
    (accepted : Accepted set text)
    (kept : ∀ name symbol, p.symbols.get? name = some symbol → q.symbols.get? name = some symbol)
    (here : ∀ name, parseLine text = .ok (.label name) →
      ∃ symbol, q.symbols.get? name = some symbol ∧ symbol.line = line) :
    Recorded set (lines ++ [(text, line)]) q := by
  constructor
  . rw [List.forall_mem_append, List.forall_mem_singleton]
    exact ⟨recorded.accepted, accepted⟩
  . rw [List.forall_mem_append, List.forall_mem_singleton]
    refine ⟨?_, here⟩
    intro other mem name label
    obtain ⟨symbol, found, place⟩ := recorded.declared other mem name label
    exact ⟨symbol, kept name symbol found, place⟩

theorem addLine (recorded : Recorded set lines p) {line : Nat} {text : List Char}
    (added : p.addLine set line text = .ok q) : Recorded set (lines ++ [(text, line)]) q := by
  rcases addLine_eq_ok added with ⟨parses, rfl⟩ | ⟨name, symbols, parses, defined, rfl⟩ |
    ⟨mnemonic, operands, encoding, parses, encoded, appended⟩
  . apply recorded.snoc ⟨_, parses, trivial⟩ (fun _ _ found => found)
    intro name label
    rw [parses] at label
    cases label
  . apply recorded.snoc ⟨_, parses, trivial⟩
    . intro other symbol found
      exact SymbolTable.get?_of_define defined found
    . intro other label
      rw [parses] at label
      cases label
      exact ⟨_, (SymbolTable.get?_define defined name).trans (if_pos rfl), rfl⟩
  . obtain ⟨-, rfl⟩ := append_eq_ok_iff.1 appended
    refine recorded.snoc ⟨_, parses, encoding, encoded⟩ (fun _ _ found => found) ?_
    intro name label
    rw [parses] at label
    cases label

end Recorded

theorem recorded_of_ofSource {source : String} (assembled : ofSource set source = .ok p) :
    Recorded set (numberedLines source) p := by
  have start : Recorded set [] {} := by
    constructor <;> simp
  rw [ofSource_eq_addLines] at assembled
  exact addLines_invariant (fun recorded added => recorded.addLine added) start assembled

def sizeBefore (p : Program) (line : Nat) : Nat :=
  ((p.chunks.filter (·.line < line)).flatMap Chunk.bytes).length

theorem sizeBefore_of_chunks {before after : List Item} {line : Nat}
    (laid : p.chunks = Item.chunks 0 (before ++ after)) (less : ∀ item ∈ before, item.line < line)
    (greater : ∀ item ∈ after, line < item.line) : p.sizeBefore line = Item.size before := by
  have kept : (Item.chunks 0 before).filter (·.line < line) = Item.chunks 0 before := by
    rw [List.filter_eq_self]
    intro chunk mem
    obtain ⟨first, item, rest, rfl, rfl⟩ := Item.mem_chunks_iff.1 mem
    exact decide_eq_true (less item (by simp))
  have dropped : (Item.chunks (0 + Item.size before) after).filter (·.line < line) = [] := by
    rw [List.filter_eq_nil_iff]
    intro chunk mem
    obtain ⟨first, item, rest, rfl, rfl⟩ := Item.mem_chunks_iff.1 mem
    have := greater item (by simp)
    show ¬ decide (item.line < line) = true
    rw [decide_eq_true_iff]
    omega
  rw [sizeBefore, laid, Item.chunks_append, List.filter_append, kept, dropped, List.append_nil,
    Item.length_flatMap_chunks]

theorem LaidOut.offset_of_declares (laid : LaidOut set lines p)
    (increasing : lines.Pairwise (·.2 < ·.2)) {name : String} {symbol : Symbol}
    (declares : Declares set lines name symbol) : symbol.offset = p.sizeBefore symbol.line := by
  obtain ⟨before, text, after, split, parses, offset⟩ := declares
  rw [split, List.pairwise_append, List.pairwise_cons] at increasing
  obtain ⟨-, ⟨greater, -⟩, less⟩ := increasing
  have none : Item.ofLine? set (text, symbol.line) = none := by simp [Item.ofLine?, parses]
  have items : Item.ofLines set lines = Item.ofLines set before ++ Item.ofLines set after := by
    rw [split, Item.ofLines, List.filterMap_append, List.filterMap_cons, none]
    rfl
  rw [offset]
  symm
  apply sizeBefore_of_chunks (items ▸ laid.chunks_eq)
  . intro item mem
    obtain ⟨other, _, _, mem, _, _⟩ := Item.mem_ofLines_iff.1 mem
    exact less _ mem (text, symbol.line) (by simp)
  . intro item mem
    obtain ⟨other, _, _, mem, _, _⟩ := Item.mem_ofLines_iff.1 mem
    exact greater _ mem

theorem get?_eq_some_iff (laid : LaidOut set lines p) (recorded : Recorded set lines p)
    (increasing : lines.Pairwise (·.2 < ·.2)) {name : String} {symbol : Symbol} :
    p.symbols.get? name = some symbol ↔
      (∃ text, (text, symbol.line) ∈ lines ∧ parseLine text = .ok (.label name)) ∧
        symbol.offset = p.sizeBefore symbol.line := by
  constructor
  . intro found
    have declares := laid.declares name symbol found
    refine ⟨?_, laid.offset_of_declares increasing declares⟩
    obtain ⟨before, text, after, rfl, parses, -⟩ := declares
    exact ⟨text, by simp, parses⟩
  . rintro ⟨⟨text, mem, parses⟩, offset⟩
    obtain ⟨first, found, line⟩ := recorded.declared _ mem name parses
    have first_offset := laid.offset_of_declares increasing (laid.declares name first found)
    have same : first = symbol := by
      obtain ⟨o, l⟩ := first
      obtain ⟨o', l'⟩ := symbol
      simp_all
    rw [found, same]

structure Reads (set : InstructionSet) (lines : List (List Char × Nat)) (p : Program) :
    Prop where
  accepted : ∀ text ∈ lines, Accepted set text.1
  chunks_eq : p.chunks.map (fun chunk => (chunk.line, chunk.bytes)) =
    (Item.ofLines set lines).map fun item => (item.line, item.encoding.bytes)
  fixups_eq : p.fixups.map (fun fixup => (fixup.line, fixup.label)) =
    lines.flatMap fun text => (referencesOf text.1).map (text.2, ·)
  get?_iff : ∀ name symbol, p.symbols.get? name = some symbol ↔
    (∃ text, (text, symbol.line) ∈ lines ∧ parseLine text = .ok (.label name)) ∧
      symbol.offset = p.sizeBefore symbol.line

theorem reads_of_ofSource {source : String} (assembled : ofSource set source = .ok p) :
    Reads set (numberedLines source) p := by
  have laid := laidOut_of_ofSource assembled
  have recorded := recorded_of_ofSource assembled
  constructor
  . exact recorded.accepted
  . rw [laid.chunks_eq, Item.map_chunks]
    rfl
  . rw [laid.fixups_eq, Item.map_fixups]
    exact Item.flatMap_references_ofLines recorded.accepted
  . intro name symbol
    exact get?_eq_some_iff laid recorded (pairwise_numberedLines source)

structure Stacked (p : Program) : Prop where
  lines : p.chunks.Pairwise (·.line < ·.line)
  offset_eq : ∀ i chunk, p.chunks[i]? = some chunk →
    chunk.offset = ((p.chunks.take i).flatMap Chunk.bytes).length
  size_eq : p.size = p.bytes.length
  size_le : p.size ≤ 256

theorem LaidOut.length_bytes (laid : LaidOut set lines p) : p.bytes.length = p.size := by
  rw [bytes, laid.chunks_eq, Item.length_flatMap_chunks, laid.size_eq]

theorem LaidOut.stacked (laid : LaidOut set lines p) (increasing : lines.Pairwise (·.2 < ·.2)) :
    p.Stacked := by
  constructor
  . have items : (Item.ofLines set lines).Pairwise (·.line < ·.line) :=
      Item.pairwise_ofLines increasing
    have same : p.chunks.map Chunk.line = (Item.ofLines set lines).map Item.line := by
      have pairs := congrArg (List.map Prod.fst) (Item.map_chunks 0 (Item.ofLines set lines))
      rw [List.map_map, List.map_map, ← laid.chunks_eq] at pairs
      exact pairs
    rw [← List.pairwise_map (f := Item.line) (R := (· < ·)), ← same, List.pairwise_map] at items
    exact items
  . intro i chunk found
    rw [laid.chunks_eq] at found ⊢
    rw [Item.offset_of_getElem?_chunks found, Nat.zero_add]
  . exact laid.length_bytes.symm
  . rw [laid.size_eq]
    exact laid.size_le

def Inside (set : InstructionSet) (p : Program) (fixup : Fixup) : Prop :=
  ∃ chunk ∈ p.chunks, ∃ opcode operands instruction i,
    chunk.line = fixup.line ∧ chunk.bytes = opcode :: operands ∧
    set.lookup opcode = some instruction ∧ instruction.operands[i]? = some .memoryAddress ∧
    operands[i]? = some 0 ∧ fixup.offset = chunk.offset + 1 + i

namespace LaidOut

theorem inside (laid : LaidOut set lines p) {fixup : Fixup} (mem : fixup ∈ p.fixups) :
    p.Inside set fixup := by
  rw [laid.fixups_eq] at mem
  obtain ⟨before, item, after, index, split, reference, line, place⟩ := Item.mem_fixups_iff.1 mem
  have mem : item ∈ Item.ofLines set lines := by simp [split]
  obtain ⟨_, _, _, _, _, encoded⟩ := Item.mem_ofLines_iff.1 mem
  obtain ⟨op, cells, ⟨-, instruction, found, fill⟩, made⟩ := encode_eq_ok_iff.1 encoded
  rw [made, Encoding.ofCells, Assembly.references] at reference
  obtain ⟨i, rfl, label⟩ := mem_references_iff_getElem?.1 reference
  refine ⟨⟨item.line, 0 + Item.size before, item.encoding.bytes⟩, ?_, op.byte,
    cells.map Cell.unlinked, instruction, i, line.symm, ?_, found, fill.kind_of_label label, ?_, ?_⟩
  . rw [laid.chunks_eq]
    exact Item.mem_chunks_iff.2 ⟨before, item, after, split, rfl⟩
  . rw [made]
    rfl
  . rw [List.getElem?_map, label]
    rfl
  . show fixup.offset = 0 + Item.size before + 1 + i
    omega

theorem offset_lt (laid : LaidOut set lines p) {fixup : Fixup} (mem : fixup ∈ p.fixups) :
    fixup.offset < p.bytes.length := by
  rw [laid.fixups_eq] at mem
  obtain ⟨before, item, after, index, split, reference, -, place⟩ := Item.mem_fixups_iff.1 mem
  have mem : item ∈ Item.ofLines set lines := by simp [split]
  have inside := Item.lt_of_mem_references mem reference
  rw [laid.length_bytes, laid.size_eq, split, Item.size_append, Item.size_cons, place]
  omega

theorem pairwise_fixups (laid : LaidOut set lines p) :
    p.fixups.Pairwise (·.offset < ·.offset) := by
  rw [laid.fixups_eq]
  exact Item.pairwise_fixups 0 (List.Sublist.refl _)

end LaidOut

end Program

end Assembly
end ByteMachine
