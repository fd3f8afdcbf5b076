import ByteMachine.Proofs.Assembly.Source

/-!
This module contains what linking makes of a source: the bytes or the error in which it ends.
-/

namespace ByteMachine
namespace Assembly
namespace Program

variable {set : InstructionSet} {lines : List (List Char × Nat)} {p : Program}

def Addressable (p : Program) (name : String) : Prop :=
  ∃ symbol, p.symbols.get? name = some symbol ∧ symbol.offset ≤ 255

theorem resolve_eq_ok_iff {symbols : SymbolTable} {label : String} {a : UInt8} :
    resolve symbols label = .ok a ↔
      ∃ symbol, symbols.get? label = some symbol ∧ symbol.offset = a.toNat := by
  rw [resolve]
  cases symbols.get? label with
  | none => simp
  | some symbol =>
    have := a.toNat_lt
    by_cases small : symbol.offset < 256
    . simp [Number.toByte?, small, ← UInt8.toNat_inj, Nat.mod_eq_of_lt small]
    . have differ : symbol.offset ≠ a.toNat := by omega
      simp [Number.toByte?, small, differ]

theorem resolve_eq_error_iff {symbols : SymbolTable} {label : String} {problem : Problem} :
    resolve symbols label = .error problem ↔
      (symbols.get? label = none ∧ problem = .labelNotFound label) ∨
        ∃ symbol, symbols.get? label = some symbol ∧ 255 < symbol.offset ∧
          problem = .programTooLarge (symbol.offset + 1) := by
  rw [resolve]
  cases symbols.get? label with
  | none => simp [eq_comm]
  | some symbol =>
    by_cases small : symbol.offset < 256
    . have : ¬ 255 < symbol.offset := by omega
      simp [Number.toByte?, small, this]
    . have : 255 < symbol.offset := by omega
      simp [Number.toByte?, small, this, eq_comm]

theorem addressable_iff {name : String} :
    p.Addressable name ↔ ∃ a, resolve p.symbols name = .ok a := by
  simp only [resolve_eq_ok_iff]
  constructor
  . rintro ⟨symbol, found, small⟩
    refine ⟨UInt8.ofNat symbol.offset, symbol, found, ?_⟩
    rw [UInt8.toNat_ofNat']
    omega
  . rintro ⟨a, symbol, found, offset⟩
    have := a.toNat_lt
    exact ⟨symbol, found, by omega⟩

def fillIn (symbols : SymbolTable) (bytes : List UInt8) (fixups : List Fixup) : List UInt8 :=
  fixups.foldl (fun bytes fixup => bytes.set fixup.offset (address symbols fixup.label)) bytes

section FillIn

variable {symbols : SymbolTable} {bytes : List UInt8} {fixups : List Fixup}

theorem fillIn_cons (fixup : Fixup) :
    fillIn symbols bytes (fixup :: fixups) =
      fillIn symbols (bytes.set fixup.offset (address symbols fixup.label)) fixups := rfl

theorem patch_eq_ok_iff {filled : List UInt8} :
    patch symbols bytes fixups = .ok filled ↔
      (∀ fixup ∈ fixups, ∃ a, resolve symbols fixup.label = .ok a) ∧
        filled = fillIn symbols bytes fixups := by
  induction fixups generalizing bytes with
  | nil => simp [patch, fillIn, eq_comm]
  | cons fixup fixups ih =>
    simp only [patch, bind_eq_ok_iff, onLine_eq_ok_iff, ih, List.forall_mem_cons, fillIn_cons,
      address]
    constructor
    . rintro ⟨a, resolved, rest, filled⟩
      rw [resolved]
      exact ⟨⟨⟨a, rfl⟩, rest⟩, filled⟩
    . rintro ⟨⟨⟨a, resolved⟩, rest⟩, filled⟩
      rw [resolved] at filled
      exact ⟨a, resolved, rest, filled⟩

theorem patch_eq_error_iff {e : Error} :
    patch symbols bytes fixups = .error e ↔
      ∃ before fixup after, fixups = before ++ fixup :: after ∧
        (∀ earlier ∈ before, ∃ a, resolve symbols earlier.label = .ok a) ∧
        e.line = fixup.line ∧ resolve symbols fixup.label = .error e.problem := by
  induction fixups generalizing bytes with
  | nil => simp [patch]
  | cons fixup fixups ih =>
    rw [patch]
    constructor
    . intro failed
      cases resolved : resolve symbols fixup.label with
      | error problem =>
        rw [resolved] at failed
        cases failed
        exact ⟨[], fixup, fixups, rfl, by simp, rfl, resolved⟩
      | ok a =>
        rw [resolved] at failed
        obtain ⟨before, other, after, rfl, earlier, here⟩ := ih.1 failed
        refine ⟨fixup :: before, other, after, rfl, ?_, here⟩
        rw [List.forall_mem_cons]
        exact ⟨⟨a, resolved⟩, earlier⟩
    . rintro ⟨before, other, after, split, earlier, line, failed⟩
      cases before with
      | nil =>
        cases split
        rw [failed, ← line]
        rfl
      | cons first before =>
        cases split
        rw [List.forall_mem_cons] at earlier
        obtain ⟨⟨a, resolved⟩, earlier⟩ := earlier
        rw [resolved]
        exact ih.2 ⟨before, other, after, rfl, earlier, line, failed⟩

theorem length_fillIn : (fillIn symbols bytes fixups).length = bytes.length := by
  induction fixups generalizing bytes with
  | nil => rfl
  | cons fixup fixups ih =>
    rw [fillIn_cons, ih, List.length_set]

theorem getElem?_fillIn_of_ne {i : Nat} (elsewhere : ∀ fixup ∈ fixups, fixup.offset ≠ i) :
    (fillIn symbols bytes fixups)[i]? = bytes[i]? := by
  induction fixups generalizing bytes with
  | nil => rfl
  | cons fixup fixups ih =>
    rw [List.forall_mem_cons] at elsewhere
    rw [fillIn_cons, ih elsewhere.2, List.getElem?_set_ne elsewhere.1]

theorem getElem?_fillIn_of_mem (distinct : fixups.Pairwise (·.offset < ·.offset)) {fixup : Fixup}
    (mem : fixup ∈ fixups) (inside : fixup.offset < bytes.length) :
    (fillIn symbols bytes fixups)[fixup.offset]? = some (address symbols fixup.label) := by
  induction fixups generalizing bytes with
  | nil => contradiction
  | cons first fixups ih =>
    rw [List.pairwise_cons] at distinct
    rw [List.mem_cons] at mem
    rw [fillIn_cons]
    rcases mem with rfl | mem
    . -- what is filled in here is not overwritten later
      rw [getElem?_fillIn_of_ne, List.getElem?_set_self inside]
      intro later mem
      have := distinct.1 later mem
      omega
    . exact ih distinct.2 mem (by rwa [List.length_set])

end FillIn

structure Patched (p : Program) (bytes : List UInt8) : Prop where
  length_eq : bytes.length = p.size
  outside : ∀ i, (∀ fixup ∈ p.fixups, fixup.offset ≠ i) → bytes[i]? = p.bytes[i]?
  at_fixup : ∀ fixup ∈ p.fixups, ∃ symbol byte, p.symbols.get? fixup.label = some symbol ∧
    bytes[fixup.offset]? = some byte ∧ byte.toNat = symbol.offset

theorem LaidOut.patched (laid : LaidOut set lines p) {bytes : List UInt8}
    (linked : p.link = .ok bytes) : p.Patched bytes := by
  obtain ⟨resolved, filled⟩ := patch_eq_ok_iff.1 linked
  constructor
  . rw [filled, length_fillIn, laid.length_bytes]
  . intro i elsewhere
    rw [filled, getElem?_fillIn_of_ne elsewhere]
  . intro fixup mem
    obtain ⟨a, here⟩ := resolved fixup mem
    obtain ⟨symbol, found, offset⟩ := resolve_eq_ok_iff.1 here
    refine ⟨symbol, a, found, ?_, offset.symm⟩
    rw [filled, getElem?_fillIn_of_mem laid.pairwise_fixups mem (laid.offset_lt mem), address, here]

/--
The bytes are what the lines are encoded to if the memory cell at the offset of a label is written
in place of the label.
-/
def Direct (set : InstructionSet) (lines : List (List Char × Nat)) (p : Program)
    (bytes : List UInt8) : Prop :=
  ∃ pieces, (lines.map Prod.fst).mapM (directOf set (address p.symbols)) = .ok pieces ∧
    bytes = pieces.flatten

theorem LaidOut.direct (laid : LaidOut set lines p) (accepted : ∀ text ∈ lines, Accepted set text.1)
    {bytes : List UInt8} (linked : p.link = .ok bytes) : p.Direct set lines bytes := by
  obtain ⟨pieces, made, same⟩ := Item.mapM_direct accepted (address p.symbols)
  refine ⟨pieces, made, ?_⟩
  rw [(laid.link_eq_ok_iff.1 linked).2, same]

/--
The error is that of a fixup, and all fixups before it are in order. Its label is not declared, or
it is declared behind the last instruction of a program that fills memory.
-/
def FailsAt (p : Program) (e : Error) (fixup : Fixup) : Prop :=
  e.line = fixup.line ∧
    ((p.symbols.get? fixup.label = none ∧ e.problem = .labelNotFound fixup.label) ∨
      ∃ symbol, p.symbols.get? fixup.label = some symbol ∧ symbol.offset = 256 ∧
        e.problem = .programTooLarge (symbol.offset + 1))

theorem LaidOut.link_eq_error_iff (laid : LaidOut set lines p) {e : Error} :
    p.link = .error e ↔
      ∃ before fixup after, p.fixups = before ++ fixup :: after ∧
        (∀ earlier ∈ before, p.Addressable earlier.label) ∧ p.FailsAt e fixup := by
  have bound : ∀ name symbol, p.symbols.get? name = some symbol → symbol.offset ≤ 256 := by
    intro name symbol found
    obtain ⟨before, text, after, split, -, offset⟩ := laid.declares name symbol found
    have size_le := laid.size_le
    rw [split, Item.ofLines, List.filterMap_append, Item.size_append] at size_le
    rw [offset, Item.ofLines]
    omega
  rw [link, patch_eq_error_iff]
  simp only [← addressable_iff, resolve_eq_error_iff, FailsAt]
  constructor
  . rintro ⟨before, fixup, after, split, earlier, line, undeclared | ⟨symbol, found, large, same⟩⟩
    . exact ⟨before, fixup, after, split, earlier, line, .inl undeclared⟩
    . have := bound _ _ found
      exact ⟨before, fixup, after, split, earlier, line, .inr ⟨symbol, found, by omega, same⟩⟩
  . rintro ⟨before, fixup, after, split, earlier, line, undeclared | ⟨symbol, found, last, same⟩⟩
    . exact ⟨before, fixup, after, split, earlier, line, .inl undeclared⟩
    . exact ⟨before, fixup, after, split, earlier, line, .inr ⟨symbol, found, by omega, same⟩⟩

theorem layout_and_link_of_ofSource {source : String} (assembled : ofSource set source = .ok p) :
    Reads set (numberedLines source) p ∧ p.Stacked ∧
    (∀ fixup ∈ p.fixups, p.Inside set fixup ∧ fixup.offset < p.bytes.length) ∧
    p.fixups.Pairwise (·.offset < ·.offset) ∧
    ((∃ bytes, p.link = .ok bytes) ↔ ∀ fixup ∈ p.fixups, p.Addressable fixup.label) ∧
    (∀ bytes, p.link = .ok bytes →
      p.Patched bytes ∧ p.Direct set (numberedLines source) bytes) ∧
    ∀ e, p.link = .error e ↔
      ∃ before fixup after, p.fixups = before ++ fixup :: after ∧
        (∀ earlier ∈ before, p.Addressable earlier.label) ∧ p.FailsAt e fixup := by
  have laid : LaidOut set (numberedLines source) p := laidOut_of_ofSource assembled
  have reads := reads_of_ofSource assembled
  refine ⟨reads, laid.stacked (pairwise_numberedLines source), ?_, laid.pairwise_fixups, ?_, ?_, ?_⟩
  . intro fixup mem
    exact ⟨laid.inside mem, laid.offset_lt mem⟩
  . simp only [link, patch_eq_ok_iff, exists_and_left, exists_eq, and_true, addressable_iff]
  . intro bytes linked
    exact ⟨laid.patched linked, laid.direct reads.accepted linked⟩
  . intro e
    exact laid.link_eq_error_iff

def crossing : String :=
  "JNZ R1 :done\n:back\n:again ; the same address\nMOV NUM1 R0\nJMP :back\nCALL :again\n" ++
    "MOV :done R2\n:done\n"

theorem layout_and_link_of_crossing :
    ∃ p : Program,
      ofSource .standard crossing = .ok p ∧
      p.chunks.map Chunk.offset = [0, 3, 6, 8, 10] ∧
      p.fixups = [⟨1, 2, "done"⟩, ⟨5, 7, "back"⟩, ⟨6, 9, "again"⟩, ⟨7, 11, "done"⟩] ∧
      p.link = .ok [0x24, 1, 13, 0x01, 1, 0, 0x20, 3, 0x25, 3, 0x02, 13, 2] ∧
      Reads .standard (numberedLines crossing) p ∧ p.Stacked ∧
      (∀ fixup ∈ p.fixups, p.Inside .standard fixup ∧ fixup.offset < p.bytes.length) ∧
      p.fixups.Pairwise (·.offset < ·.offset) ∧
      ((∃ bytes, p.link = .ok bytes) ↔ ∀ fixup ∈ p.fixups, p.Addressable fixup.label) ∧
      (∀ bytes, p.link = .ok bytes →
        p.Patched bytes ∧ p.Direct .standard (numberedLines crossing) bytes) ∧
      ∀ e, p.link = .error e ↔
        ∃ before fixup after, p.fixups = before ++ fixup :: after ∧
          (∀ earlier ∈ before, p.Addressable earlier.label) ∧ p.FailsAt e fixup :=
  ⟨_, rfl, rfl, rfl, rfl, layout_and_link_of_ofSource rfl⟩

end Program

end Assembly
end ByteMachine
