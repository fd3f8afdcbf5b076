import ByteMachine.Proofs.Assembly.Encoding
import ByteMachine.Proofs.Assembly.Offset

/-!
This module contains the layout of a program: its instructions one after another, each label at the
instruction behind it, and what linking makes of the bytes.
-/

namespace ByteMachine
namespace Assembly

structure Item where
  line : Nat
  encoding : Encoding
deriving DecidableEq

namespace Item

def ofLine? (set : InstructionSet) (text : List Char × Nat) : Option Item :=
  match parseLine text.1 with
  | .ok (.instruction mnemonic operands) =>
    match encode set mnemonic operands with
    | .ok encoding => some ⟨text.2, encoding⟩
    | .error _ => none
  | _ => none

def ofLines (set : InstructionSet) (lines : List (List Char × Nat)) : List Item :=
  lines.filterMap (ofLine? set)

theorem ofLine?_eq_some_iff {set : InstructionSet} {text : List Char × Nat} {item : Item} :
    ofLine? set text = some item ↔
      ∃ mnemonic operands, parseLine text.1 = .ok (.instruction mnemonic operands) ∧
        encode set mnemonic operands = .ok item.encoding ∧ item.line = text.2 := by
  obtain ⟨line, encoding⟩ := item
  constructor
  . intro found
    simp only [ofLine?] at found
    split at found
    . next mnemonic operands parses =>
      split at found
      . next encoding encoded =>
        cases found
        exact ⟨mnemonic, operands, parses, encoded, rfl⟩
      . contradiction
    . contradiction
  . rintro ⟨mnemonic, operands, parses, encoded, rfl⟩
    simp only [ofLine?, parses, encoded]

theorem mem_ofLines_iff {set : InstructionSet} {lines : List (List Char × Nat)} {item : Item} :
    item ∈ ofLines set lines ↔
      ∃ text mnemonic operands, (text, item.line) ∈ lines ∧
        parseLine text = .ok (.instruction mnemonic operands) ∧
        encode set mnemonic operands = .ok item.encoding := by
  simp only [ofLines, List.mem_filterMap, Prod.exists, ofLine?_eq_some_iff]
  constructor
  . rintro ⟨text, _, mem, mnemonic, operands, parses, encoded, rfl⟩
    exact ⟨text, mnemonic, operands, mem, parses, encoded⟩
  . rintro ⟨text, mnemonic, operands, mem, parses, encoded⟩
    exact ⟨text, item.line, mem, mnemonic, operands, parses, encoded, rfl⟩

theorem made_of_mem_ofLines {set : InstructionSet} {lines : List (List Char × Nat)} {item : Item}
    (mem : item ∈ ofLines set lines) :
    ∃ (op : Opcode) (cells : List Cell), item.encoding = .ofCells (.byte op.byte :: cells) := by
  obtain ⟨_, _, _, _, _, encoded⟩ := mem_ofLines_iff.1 mem
  obtain ⟨op, cells, _, made⟩ := encode_eq_ok_iff.1 encoded
  exact ⟨op, cells, made⟩

theorem bytes_ne_nil {set : InstructionSet} {lines : List (List Char × Nat)} {item : Item}
    (mem : item ∈ ofLines set lines) : item.encoding.bytes ≠ [] := by
  obtain ⟨op, cells, made⟩ := made_of_mem_ofLines mem
  rw [made, Encoding.ofCells, List.map_cons]
  exact List.cons_ne_nil _ _

def size (items : List Item) : Nat :=
  (items.flatMap (·.encoding.bytes)).length

def chunks (offset : Nat) : List Item → List Chunk
  | [] => []
  | item :: rest =>
    ⟨item.line, offset, item.encoding.bytes⟩ :: chunks (offset + item.encoding.bytes.length) rest

def fixups (offset : Nat) : List Item → List Fixup
  | [] => []
  | item :: rest =>
    item.encoding.references.map (fun (index, label) => ⟨item.line, offset + index, label⟩) ++
      fixups (offset + item.encoding.bytes.length) rest

@[simp]
theorem size_nil : size [] = 0 := rfl

@[simp]
theorem size_cons (item : Item) (items : List Item) :
    size (item :: items) = item.encoding.bytes.length + size items := by
  simp [size]

@[simp]
theorem size_append (before after : List Item) :
    size (before ++ after) = size before + size after := by
  simp [size]

theorem length_flatMap_linked (address : String → UInt8) (items : List Item) :
    (items.flatMap (·.encoding.linked address)).length = size items := by
  induction items with
  | nil => rfl
  | cons item items ih =>
    rw [List.flatMap_cons, List.length_append, Encoding.length_linked, ih, size_cons]

theorem chunks_append (offset : Nat) (before after : List Item) :
    chunks offset (before ++ after) =
      chunks offset before ++ chunks (offset + size before) after := by
  induction before generalizing offset with
  | nil => rfl
  | cons item before ih => simp [chunks, ih, Nat.add_assoc]

theorem fixups_append (offset : Nat) (before after : List Item) :
    fixups offset (before ++ after) =
      fixups offset before ++ fixups (offset + size before) after := by
  induction before generalizing offset with
  | nil => rfl
  | cons item before ih => simp [fixups, ih, Nat.add_assoc]

theorem flatMap_bytes_chunks (offset : Nat) (items : List Item) :
    (chunks offset items).flatMap Chunk.bytes = items.flatMap (·.encoding.bytes) := by
  induction items generalizing offset with
  | nil => rfl
  | cons item items ih => rw [chunks, List.flatMap_cons, List.flatMap_cons, ih]

theorem mem_chunks_iff {offset : Nat} {items : List Item} {chunk : Chunk} :
    chunk ∈ chunks offset items ↔
      ∃ before item after, items = before ++ item :: after ∧
        chunk = ⟨item.line, offset + size before, item.encoding.bytes⟩ := by
  constructor
  . intro mem
    induction items generalizing offset with
    | nil => contradiction
    | cons item items ih =>
      rw [chunks, List.mem_cons] at mem
      rcases mem with rfl | mem
      . exact ⟨[], item, items, rfl, rfl⟩
      . obtain ⟨before, other, after, rfl, rfl⟩ := ih mem
        refine ⟨item :: before, other, after, rfl, ?_⟩
        rw [size_cons, Nat.add_assoc]
  . rintro ⟨before, item, after, rfl, rfl⟩
    simp [chunks_append, chunks]

end Item

theorem Program.size_of_chunks {p : Program} {items : List Item}
    (laid : p.chunks = Item.chunks 0 items) : p.size = Item.size items := by
  rw [size, laid]
  rcases items.eq_nil_or_concat with rfl | ⟨before, last, rfl⟩
  . rfl
  . rw [List.concat_eq_append, Item.chunks_append]
    simp [Item.chunks, Chunk.stop]

namespace Program

theorem addLine_eq_ok {set : InstructionSet} {p q : Program} {line : Nat} {text : List Char}
    (added : p.addLine set line text = .ok q) :
    (parseLine text = .ok .blank ∧ q = p) ∨
    (∃ name symbols, parseLine text = .ok (.label name) ∧
      p.symbols.define name ⟨p.size, line⟩ = .ok symbols ∧ q = { p with symbols }) ∨
    (∃ mnemonic operands encoding, parseLine text = .ok (.instruction mnemonic operands) ∧
      encode set mnemonic operands = .ok encoding ∧ p.append line encoding = .ok q) := by
  rw [addLine] at added
  obtain ⟨parsed, parses, added⟩ := bind_eq_ok_iff.1 added
  cases parsed with
  | blank =>
    cases added
    exact .inl ⟨parses, rfl⟩
  | label name =>
    obtain ⟨symbols, defined, added⟩ := bind_eq_ok_iff.1 added
    cases added
    exact .inr (.inl ⟨name, symbols, parses, defined, rfl⟩)
  | instruction mnemonic operands =>
    obtain ⟨encoding, encoded, appended⟩ := bind_eq_ok_iff.1 added
    exact .inr (.inr ⟨mnemonic, operands, encoding, parses, encoded, appended⟩)

theorem addLines_invariant {set : InstructionSet}
    {Invariant : List (List Char × Nat) → Program → Prop}
    (preserves : ∀ {lines p line text q}, Invariant lines p → p.addLine set line text = .ok q →
      Invariant (lines ++ [(text, line)]) q)
    {lines more : List (List Char × Nat)} {p q : Program} (holds : Invariant lines p)
    (added : p.addLines set more = .ok q) : Invariant (lines ++ more) q := by
  induction more generalizing p lines with
  | nil =>
    cases added
    rw [List.append_nil]
    exact holds
  | cons line more ih =>
    obtain ⟨r, first, rest⟩ := bind_eq_ok_iff.1 added
    have := ih (preserves holds (onLine_eq_ok_iff.1 first)) rest
    rw [List.append_assoc] at this
    exact this

def Declares (set : InstructionSet) (lines : List (List Char × Nat)) (name : String)
    (symbol : Symbol) : Prop :=
  ∃ before text after, lines = before ++ (text, symbol.line) :: after ∧
    parseLine text = .ok (.label name) ∧ symbol.offset = Item.size (Item.ofLines set before)

structure LaidOut (set : InstructionSet) (lines : List (List Char × Nat)) (p : Program) :
    Prop where
  chunks_eq : p.chunks = Item.chunks 0 (Item.ofLines set lines)
  fixups_eq : p.fixups = Item.fixups 0 (Item.ofLines set lines)
  size_le : Item.size (Item.ofLines set lines) ≤ 256
  declares : ∀ name symbol, p.symbols.get? name = some symbol → Declares set lines name symbol

namespace LaidOut

variable {set : InstructionSet} {lines : List (List Char × Nat)} {p q : Program}

theorem size_eq (laid : LaidOut set lines p) : p.size = Item.size (Item.ofLines set lines) :=
  size_of_chunks laid.chunks_eq

theorem declares_append {line : List Char × Nat} {name : String} {symbol : Symbol}
    (declares : Declares set lines name symbol) : Declares set (lines ++ [line]) name symbol := by
  obtain ⟨before, text, after, rfl, parses, offset⟩ := declares
  exact ⟨before, text, after ++ [line], by simp, parses, offset⟩

theorem addLine (laid : LaidOut set lines p) {line : Nat} {text : List Char}
    (added : p.addLine set line text = .ok q) : LaidOut set (lines ++ [(text, line)]) q := by
  have kept : ∀ name symbol, p.symbols.get? name = some symbol →
      Declares set (lines ++ [(text, line)]) name symbol := by
    intro name symbol found
    exact declares_append (laid.declares name symbol found)
  have items : Item.ofLines set (lines ++ [(text, line)]) =
      Item.ofLines set lines ++ (Item.ofLine? set (text, line)).toList := by
    rw [Item.ofLines, List.filterMap_append]
    cases found : Item.ofLine? set (text, line) <;> simp [Item.ofLines, found]
  rcases addLine_eq_ok added with ⟨parses, rfl⟩ | ⟨name, symbols, parses, defined, rfl⟩ |
    ⟨mnemonic, operands, encoding, parses, encoded, appended⟩
  . have none : Item.ofLine? set (text, line) = none := by simp [Item.ofLine?, parses]
    rw [none, Option.toList_none, List.append_nil] at items
    exact ⟨items ▸ laid.chunks_eq, items ▸ laid.fixups_eq, items ▸ laid.size_le, kept⟩
  . have none : Item.ofLine? set (text, line) = none := by simp [Item.ofLine?, parses]
    rw [none, Option.toList_none, List.append_nil] at items
    refine ⟨items ▸ laid.chunks_eq, items ▸ laid.fixups_eq, items ▸ laid.size_le, ?_⟩
    intro other symbol found
    rw [SymbolTable.get?_define defined] at found
    split at found
    . next same =>
      -- a new label stands at the end of the program so far
      cases found
      rw [same]
      exact ⟨lines, text, [], rfl, parses, laid.size_eq⟩
    . exact kept other symbol found
  . obtain ⟨fits, rfl⟩ := append_eq_ok_iff.1 appended
    have some : Item.ofLine? set (text, line) = some ⟨line, encoding⟩ := by
      simp [Item.ofLine?, parses, encoded]
    rw [some, Option.toList_some] at items
    rw [laid.size_eq] at fits
    refine ⟨?_, ?_, ?_, kept⟩
    . rw [items, Item.chunks_append, laid.chunks_eq, laid.size_eq, Nat.zero_add]
      rfl
    . rw [items, Item.fixups_append, laid.fixups_eq, laid.size_eq, Nat.zero_add, Item.fixups,
        Item.fixups, List.append_nil]
    . rw [items, Item.size_append, Item.size_cons, Item.size_nil]
      exact fits

theorem addLines (laid : LaidOut set lines p) {more : List (List Char × Nat)}
    (added : p.addLines set more = .ok q) : LaidOut set (lines ++ more) q :=
  addLines_invariant (fun laid added => laid.addLine added) laid added

end LaidOut

theorem laidOut_of_ofSource {set : InstructionSet} {source : String} {p : Program}
    (assembled : ofSource set source = .ok p) :
    LaidOut set ((Text.lines source.toList).zipIdx 1) p := by
  have start : LaidOut set [] {} := by
    refine ⟨rfl, rfl, Nat.zero_le 256, ?_⟩
    intro name symbol found
    contradiction
  rw [ofSource_eq_addLines] at assembled
  exact start.addLines assembled

def address (symbols : SymbolTable) (name : String) : UInt8 :=
  match resolve symbols name with
  | .ok address => address
  | .error _ => 0

theorem patch_cells {symbols : SymbolTable} {cells : List Cell} (done : List UInt8)
    {rest : List UInt8} {line : Nat} {more : List Fixup} {bytes : List UInt8} :
    patch symbols (done ++ cells.map Cell.unlinked ++ rest)
        ((references done.length cells).map (fun (index, label) => ⟨line, index, label⟩) ++ more) =
        .ok bytes ↔
      (∀ name, .label name ∈ cells → ∃ a, resolve symbols name = .ok a) ∧
        patch symbols (done ++ cells.map (Cell.value (address symbols)) ++ rest) more =
          .ok bytes := by
  -- what has been filled in already is part of `done`, so the next reference is at its end
  induction cells generalizing done with
  | nil => simp [references]
  | cons cell cells ih =>
    cases cell with
    | byte value =>
      have := ih (done ++ [value])
      simpa [references, Cell.unlinked, Cell.value] using this
    | label name =>
      have others : (∀ other, .label other ∈ Cell.label name :: cells →
            ∃ a, resolve symbols other = .ok a) ↔
          (∃ a, resolve symbols name = .ok a) ∧
            ∀ other, .label other ∈ cells → ∃ a, resolve symbols other = .ok a := by
        simp
      simp only [references, List.map_cons, List.cons_append, patch, bind_eq_ok_iff,
        onLine_eq_ok_iff, others, Cell.value]
      cases resolved : resolve symbols name with
      | error problem => simp
      | ok a =>
        have here : address symbols name = a := by rw [address, resolved]
        have patched : (done ++ Cell.unlinked (.label name) :: cells.map Cell.unlinked ++ rest).set
            done.length a = done ++ [a] ++ cells.map Cell.unlinked ++ rest := by
          simp
        have := ih (done ++ [a])
        rw [List.length_append, List.length_singleton] at this
        simp only [here, Except.ok.injEq, exists_eq', true_and, exists_eq_left', patched, this]
        simp

theorem patch_items {symbols : SymbolTable} {items : List Item}
    (made : ∀ item ∈ items, ∃ cells, item.encoding = .ofCells cells) (done : List UInt8)
    {bytes : List UInt8} :
    patch symbols (done ++ items.flatMap (·.encoding.bytes)) (Item.fixups done.length items) =
        .ok bytes ↔
      (∀ item ∈ items, ∀ reference ∈ item.encoding.references,
          ∃ a, resolve symbols reference.2 = .ok a) ∧
        bytes = done ++ items.flatMap (·.encoding.linked (address symbols)) := by
  induction items generalizing done with
  | nil => simp [Item.fixups, patch, eq_comm]
  | cons item items ih =>
    obtain ⟨cells, made_item⟩ := made item (by simp)
    have labels : (∀ reference ∈ item.encoding.references,
          ∃ a, resolve symbols reference.2 = .ok a) ↔
        ∀ name, .label name ∈ cells → ∃ a, resolve symbols name = .ok a := by
      simp only [made_item, Encoding.ofCells, ← mem_references_iff 0, Prod.forall]
      constructor
      . rintro h name ⟨index, mem⟩
        exact h index name mem
      . intro h index name mem
        exact h name ⟨index, mem⟩
    have place : item.encoding.references.map
          (fun (index, label) => (⟨item.line, done.length + index, label⟩ : Fixup)) =
        (references done.length cells).map fun (index, label) => ⟨item.line, index, label⟩ := by
      have moved := references_add 0 done.length cells
      rw [Nat.add_zero] at moved
      rw [← moved, made_item, List.map_map]
      rfl
    have rest := ih (fun other mem => made other (by simp [mem]))
      (done ++ cells.map (Cell.value (address symbols)))
    have bytes_eq : item.encoding.bytes = cells.map Cell.unlinked := by rw [made_item]; rfl
    have length_eq : done.length + item.encoding.bytes.length =
        (done ++ cells.map (Cell.value (address symbols))).length := by
      simp [bytes_eq]
    rw [List.flatMap_cons, Item.fixups, place, length_eq, bytes_eq, ← List.append_assoc,
      patch_cells, rest, ← labels, List.forall_mem_cons, List.flatMap_cons, made_item,
      Encoding.linked_ofCells, List.append_assoc, and_assoc]

namespace LaidOut

variable {set : InstructionSet} {lines : List (List Char × Nat)} {p : Program}

theorem link_eq_ok_iff (laid : LaidOut set lines p) {bytes : List UInt8} :
    p.link = .ok bytes ↔
      (∀ item ∈ Item.ofLines set lines, ∀ reference ∈ item.encoding.references,
          ∃ a, resolve p.symbols reference.2 = .ok a) ∧
        bytes = (Item.ofLines set lines).flatMap (·.encoding.linked (address p.symbols)) := by
  rw [link, Program.bytes, laid.chunks_eq, laid.fixups_eq, Item.flatMap_bytes_chunks]
  refine patch_items ?_ []
  intro item mem
  obtain ⟨op, cells, made⟩ := Item.made_of_mem_ofLines mem
  exact ⟨_, made⟩

theorem length_of_link (laid : LaidOut set lines p) {bytes : List UInt8}
    (linked : p.link = .ok bytes) : bytes.length = p.size := by
  rw [(laid.link_eq_ok_iff.1 linked).2, laid.size_eq, Item.length_flatMap_linked]

theorem address_eq (laid : LaidOut set lines p) {name : String} {a : UInt8}
    (resolved : resolve p.symbols name = .ok a) :
    ∃ symbol, Declares set lines name symbol ∧ symbol.offset = a.toNat := by
  rw [resolve] at resolved
  split at resolved
  . contradiction
  . next symbol found =>
    split at resolved
    . next byte inside =>
      cases resolved
      refine ⟨symbol, laid.declares name symbol found, ?_⟩
      rw [Number.toByte?] at inside
      split at inside
      . next bound =>
        cases inside
        rw [UInt8.toNat_ofNat']
        omega
      . contradiction
    . contradiction

end LaidOut

end Program

end Assembly
end ByteMachine
