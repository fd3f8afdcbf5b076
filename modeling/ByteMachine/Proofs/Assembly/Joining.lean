import ByteMachine.Proofs.Assembly.Prefix
import Mathlib.Data.List.Nodup

/-!
This module contains the join of two sources: what the second one is encoded to is laid out behind
the first one, unless a label is declared in both or there is no room.
-/

namespace ByteMachine

namespace Text

theorem lines_append {s : List Char} (ends : s = [] ∨ s.getLast? = some '\n')
    (rest : List Char) : lines (s ++ rest) = lines s ++ lines rest := by
  induction s with
  | nil => rfl
  | cons c s ih =>
    cases only : s with
    | nil =>
      have feed : c = '\n' := by simpa [only] using ends
      rw [feed]
      rfl
    | cons d more =>
      rw [← only]
      have last : s.getLast? = some '\n' := by
        rw [only] at ends ⊢
        simpa [List.getLast?_cons_cons] using ends
      have some_line : lines s ≠ [] := only ▸ lines_cons_ne_nil d more
      obtain ⟨line, others, split⟩ := List.exists_cons_of_ne_nil some_line
      have head : (s ++ rest).head? = s.head? := by
        rw [only]
        rfl
      -- the line goes on to the line feed at the end, so what comes behind is not looked at
      rw [List.cons_append, lines, lines, head, ih (.inr last), split]
      split
      . rfl
      . split <;> rfl

end Text

namespace Assembly

def Chunk.moved (size lines : Nat) (c : Chunk) : Chunk :=
  { c with line := lines + c.line, offset := size + c.offset }

def Fixup.moved (size lines : Nat) (f : Fixup) : Fixup :=
  { f with line := lines + f.line, offset := size + f.offset }

def Symbol.moved (size lines : Nat) (s : Symbol) : Symbol where
  offset := size + s.offset
  line := lines + s.line

namespace SymbolTable

/--
The labels of a table, and behind them those of another one that is moved.
-/
def join (t : SymbolTable) (size lines : Nat) (u : SymbolTable) : SymbolTable where
  entries := t.entries ++ u.entries.map fun (name, symbol) => (name, symbol.moved size lines)

theorem get?_join (t u : SymbolTable) (size lines : Nat) (name : String) :
    (t.join size lines u).get? name =
      ((t.get? name).or ((u.get? name).map (Symbol.moved size lines))) := by
  simp only [get?, join, List.find?_append, List.find?_map, Option.map_or, Option.map_map]
  rfl

end SymbolTable

namespace Program

variable {set : InstructionSet} {p q r : Program}

/--
The program, and behind it another one that is moved behind it, in memory and by this many lines of
the source.
-/
def join (p : Program) (lines : Nat) (q : Program) : Program where
  chunks := p.chunks ++ q.chunks.map (Chunk.moved p.size lines)
  symbols := p.symbols.join p.size lines q.symbols
  fixups := p.fixups ++ q.fixups.map (Fixup.moved p.size lines)

theorem join_empty (p : Program) (lines : Nat) : p.join lines {} = p := by
  simp [join, SymbolTable.join]

theorem size_join (p : Program) (lines : Nat) (q : Program) :
    (p.join lines q).size = p.size + q.size := by
  simp only [size, join, List.getLast?_append, List.getLast?_map]
  cases q.chunks.getLast? with
  | none => rfl
  | some last => exact Nat.add_assoc _ _ _

theorem append_of_past {line : Nat} {encoding : Encoding}
    (past : 256 < p.size + encoding.bytes.length) :
    p.append line encoding = .error (.programTooLarge (p.size + encoding.bytes.length)) :=
  if_neg (Nat.not_le.2 past)

theorem size_le_of_addLines {lines : List (List Char × Nat)}
    (added : p.addLines set lines = .ok q) : p.size ≤ q.size := by
  induction lines generalizing p with
  | nil =>
    cases added
    exact Nat.le_refl _
  | cons text lines ih =>
    obtain ⟨r, first, rest⟩ := bind_eq_ok_iff.1 added
    have grown : p.size ≤ r.size := by
      rcases addLine_eq_ok (onLine_eq_ok_iff.1 first) with ⟨-, rfl⟩ | ⟨name, symbols, -, -, rfl⟩ |
        ⟨mnemonic, operands, encoding, -, -, appended⟩
      . exact Nat.le_refl _
      . exact Nat.le_refl _
      . rw [size_of_append appended]
        exact Nat.le_add_right _ _
    exact grown.trans (ih rest)

def Clash (p q : Program) : Prop :=
  ∃ name first second, p.symbols.get? name = some first ∧ q.symbols.get? name = some second

theorem Clash.of_begins (begins : r.Begins q) (clash : p.Clash r) : p.Clash q := by
  obtain ⟨name, first, second, left, right⟩ := clash
  exact ⟨name, first, second, left, begins.labels name second right⟩

theorem addLine_of_label {line : Nat} {text : List Char} {name : String}
    (parses : parseLine text = .ok (.label name)) :
    p.addLine set line text =
      p.symbols.define name ⟨p.size, line⟩ >>= fun symbols => .ok { p with symbols } := by
  rw [addLine, parses]
  rfl

theorem addLine_of_instruction {line : Nat} {text : List Char} {mnemonic : String}
    {operands : List Operand} {encoding : Encoding}
    (parses : parseLine text = .ok (.instruction mnemonic operands))
    (encoded : encode set mnemonic operands = .ok encoding) :
    p.addLine set line text = p.append line encoding := by
  rw [addLine, parses]
  exact congrArg (· >>= p.append line) encoded

theorem define_join {name : String} {line : Nat} {symbols : SymbolTable} (lines : Nat)
    (defined : r.symbols.define name ⟨r.size, line⟩ = .ok symbols)
    (fresh : p.symbols.get? name = none) :
    (p.join lines r).symbols.define name ⟨(p.join lines r).size, lines + line⟩ =
      .ok (p.symbols.join p.size lines symbols) := by
  obtain ⟨other, rfl⟩ := SymbolTable.define_eq_ok_iff.1 defined
  rw [SymbolTable.define_eq_ok_iff, size_join]
  refine ⟨?_, ?_⟩
  . rw [join, SymbolTable.get?_join, fresh, other]
    rfl
  . simp [join, SymbolTable.join, Symbol.moved]

theorem append_join {line : Nat} {encoding : Encoding} (lines : Nat)
    (added : r.append line encoding = .ok q) (fits : p.size + q.size ≤ 256) :
    (p.join lines r).append (lines + line) encoding = .ok (p.join lines q) := by
  have size := size_of_append added
  obtain ⟨-, rfl⟩ := append_eq_ok_iff.1 added
  rw [append_eq_ok_iff, size_join]
  refine ⟨by omega, ?_⟩
  simp only [join, List.map_append, List.map_cons, List.map_nil, List.append_assoc, List.map_map]
  congr 3
  apply List.map_congr_left
  intro reference _
  simp only [Fixup.moved, Function.comp_apply, Nat.add_assoc]

theorem addLine_join {line : Nat} {text : List Char} (lines : Nat)
    (added : r.addLine set line text = .ok q) (apart : ¬p.Clash q)
    (fits : p.size + q.size ≤ 256) :
    (p.join lines r).addLine set (lines + line) text = .ok (p.join lines q) := by
  rcases addLine_eq_ok added with ⟨parses, rfl⟩ | ⟨name, symbols, parses, defined, rfl⟩ |
    ⟨mnemonic, operands, encoding, parses, encoded, appended⟩
  . rw [addLine, parses]
    rfl
  . have fresh : p.symbols.get? name = none := by
      cases found : p.symbols.get? name with
      | none => rfl
      | some first =>
        have declared := SymbolTable.get?_define defined name
        rw [if_pos rfl] at declared
        exact absurd ⟨name, first, _, found, declared⟩ apart
    rw [addLine_of_label parses, define_join lines defined fresh]
    rfl
  . rw [addLine_of_instruction parses encoded]
    exact append_join lines appended fits

def movedLines (lines : Nat) (texts : List (List Char × Nat)) : List (List Char × Nat) :=
  texts.map (Prod.map id (lines + ·))

theorem addLines_join {texts : List (List Char × Nat)} (lines : Nat)
    (added : r.addLines set texts = .ok q) (apart : ¬p.Clash q) (fits : p.size + q.size ≤ 256) :
    (p.join lines r).addLines set (movedLines lines texts) = .ok (p.join lines q) := by
  induction texts generalizing r with
  | nil =>
    cases added
    rfl
  | cons text texts ih =>
    obtain ⟨s, first, rest⟩ := bind_eq_ok_iff.1 added
    have size := size_le_of_addLines rest
    have apart_first : ¬p.Clash s := mt (Clash.of_begins (.addLines rest)) apart
    have here := addLine_join lines (onLine_eq_ok_iff.1 first) apart_first (by omega)
    exact bind_eq_ok_iff.2 ⟨_, onLine_eq_ok_iff.2 here, ih rest⟩

theorem ofSource_append_eq {a b : String} (ends : a = "" ∨ a.toList.getLast? = some '\n')
    (left : ofSource set a = .ok p) :
    ofSource set (a ++ b) =
      p.addLines set (movedLines (Text.lines a.toList).length (numberedLines b)) := by
  have ends : a.toList = [] ∨ a.toList.getLast? = some '\n' := by
    rcases ends with rfl | feed
    . exact .inl rfl
    . exact .inr feed
  have moved : movedLines (Text.lines a.toList).length (numberedLines b) =
      (Text.lines b.toList).zipIdx (1 + (Text.lines a.toList).length) := by
    rw [Nat.add_comm 1, ← List.map_snd_add_zipIdx_eq_zipIdx, movedLines]
    simp only [Nat.add_comm]
    rfl
  rw [ofSource_eq_addLines] at left
  rw [ofSource_eq_addLines, String.toList_append, Text.lines_append ends, List.zipIdx_append,
    addLines_append, left, moved]
  rfl

structure FirstClash (p q : Program) (name : String) (first second : Symbol) : Prop where
  left : p.symbols.get? name = some first
  right : q.symbols.get? name = some second
  least : ∀ other s t, p.symbols.get? other = some s → q.symbols.get? other = some t →
    second.line ≤ t.line

/--
The instruction ends past the last address if it is moved behind the first program, and no earlier
one does.
-/
structure FirstOverflow (p q : Program) (chunk : Chunk) : Prop where
  mem : chunk ∈ q.chunks
  past : 256 < p.size + chunk.stop
  least : ∀ other ∈ q.chunks, 256 < p.size + other.stop → chunk.line ≤ other.line

structure ClearBefore (p q : Program) (line : Nat) : Prop where
  apart : ∀ name first second, p.symbols.get? name = some first →
    q.symbols.get? name = some second → line ≤ second.line
  fits : ∀ chunk ∈ q.chunks, 256 < p.size + chunk.stop → line ≤ chunk.line

theorem exists_least {α : Type} {P : α → Prop} (rank : α → Nat) (some : ∃ a, P a) :
    ∃ a, P a ∧ ∀ b, P b → rank a ≤ rank b := by
  obtain ⟨a, holds, least⟩ := (measure rank).wf.has_min {a | P a} some
  exact ⟨a, holds, fun b other => Nat.not_lt.1 (least b other)⟩

theorem exists_firstClash (clash : p.Clash q) :
    ∃ name first second, FirstClash p q name first second := by
  let both : String × Symbol × Symbol → Prop := fun (name, first, second) =>
    p.symbols.get? name = some first ∧ q.symbols.get? name = some second
  obtain ⟨name, first, second, left, right⟩ := clash
  obtain ⟨⟨name, first, second⟩, ⟨left, right⟩, least⟩ :=
    exists_least (P := both) (·.2.2.line) ⟨(name, first, second), left, right⟩
  exact ⟨name, first, second, left, right, fun other s t l r => least (other, s, t) ⟨l, r⟩⟩

theorem exists_chunk_of_size (positive : 0 < r.size) : ∃ chunk ∈ r.chunks, chunk.stop = r.size := by
  cases last : r.chunks.getLast? with
  | none => simp [size, last] at positive
  | some chunk => exact ⟨chunk, List.mem_of_getLast? last, by simp [size, last]⟩

theorem exists_firstOverflow (fits : p.size ≤ 256) (large : 256 < p.size + q.size) :
    ∃ chunk, FirstOverflow p q chunk := by
  obtain ⟨last, mem, stop⟩ := exists_chunk_of_size (r := q) (by omega)
  have past : 256 < p.size + last.stop := stop ▸ large
  obtain ⟨chunk, ⟨mem, past⟩, least⟩ :=
    exists_least (P := fun chunk => chunk ∈ q.chunks ∧ 256 < p.size + chunk.stop) Chunk.line
      ⟨last, mem, past⟩
  exact ⟨chunk, mem, past, fun other mem past => least other ⟨mem, past⟩⟩

namespace LaidOut

variable {lines : List (List Char × Nat)}

theorem exists_line_of_chunk (laid : LaidOut set lines r) {chunk : Chunk} (mem : chunk ∈ r.chunks) :
    ∃ before text mnemonic operands encoding after, lines = before ++ (text, chunk.line) :: after ∧
      parseLine text = .ok (.instruction mnemonic operands) ∧
      encode set mnemonic operands = .ok encoding ∧
      chunk.offset = Item.size (Item.ofLines set before) ∧ chunk.bytes = encoding.bytes := by
  rw [laid.chunks_eq] at mem
  obtain ⟨first, item, rest, split, rfl⟩ := Item.mem_chunks_iff.1 mem
  obtain ⟨early, late, rfl, before, behind⟩ := List.filterMap_eq_append_iff.1 split
  obtain ⟨silent, text, after, rfl, none, found, -⟩ := List.filterMap_eq_cons_iff.1 behind
  obtain ⟨mnemonic, operands, parses, encoded, line⟩ := Item.ofLine?_eq_some_iff.1 found
  refine ⟨early ++ silent, text.1, mnemonic, operands, item.encoding, after, ?_, parses, encoded,
    ?_, rfl⟩
  . rw [List.append_assoc, line]
  . have nothing : silent.filterMap (Item.ofLine? set) = [] := by
      rw [List.filterMap_eq_nil_iff]
      exact none
    rw [Item.ofLines, List.filterMap_append, before, nothing, List.append_nil, Nat.zero_add]

theorem room (laid : LaidOut set lines r) : r.size ≤ 256 :=
  laid.size_eq ▸ laid.size_le

theorem stop_le (laid : LaidOut set lines r) {chunk : Chunk} (mem : chunk ∈ r.chunks) :
    chunk.stop ≤ r.size := by
  rw [laid.size_eq]
  rw [laid.chunks_eq] at mem
  obtain ⟨before, item, after, split, rfl⟩ := Item.mem_chunks_iff.1 mem
  rw [split, Item.size_append, Item.size_cons, Chunk.stop]
  dsimp only
  omega

theorem line_ne (laid : LaidOut set lines r) (increasing : lines.Pairwise (·.2 < ·.2))
    {name : String} {symbol : Symbol} {chunk : Chunk} (found : r.symbols.get? name = some symbol)
    (mem : chunk ∈ r.chunks) : symbol.line ≠ chunk.line := by
  intro same
  obtain ⟨before, text, after, split, label, -⟩ := laid.declares name symbol found
  obtain ⟨before', text', _, _, _, after', split', instruction, -⟩ := laid.exists_line_of_chunk mem
  have mem : (text, symbol.line) ∈ lines := by simp [split]
  have mem' : (text', symbol.line) ∈ lines := by simp [split', same]
  have distinct : (lines.map Prod.snd).Nodup :=
    List.pairwise_map.2 (increasing.imp Nat.ne_of_lt)
  have texts : text = text' := congrArg Prod.fst (List.inj_on_of_nodup_map distinct mem mem' rfl)
  rw [texts, instruction] at label
  cases label

end LaidOut

theorem ClearBefore.of_begins {lines : List (List Char × Nat)} {line : Nat}
    (clear : ClearBefore p q line) (fits : p.size ≤ 256) (laid : LaidOut set lines r)
    (begins : r.Begins q) (early : ∀ text ∈ lines, text.2 < line) :
    ¬p.Clash r ∧ p.size + r.size ≤ 256 := by
  constructor
  . rintro ⟨name, first, second, left, right⟩
    have later := clear.apart name first second left (begins.labels name second right)
    obtain ⟨before, text, after, rfl, -, -⟩ := laid.declares name second right
    have := early (text, second.line) (by simp)
    omega
  . by_contra large
    obtain ⟨last, mem, stop⟩ := exists_chunk_of_size (r := r) (by omega)
    have later := clear.fits last (begins.chunks.subset mem) (by omega)
    obtain ⟨before, text, _, _, _, after, rfl, -⟩ := laid.exists_line_of_chunk mem
    have := early (text, last.line) (by simp)
    omega

section Join

variable {a b : String} (ends : a = "" ∨ a.toList.getLast? = some '\n')
  (left : ofSource set a = .ok p) (right : ofSource set b = .ok q)
include ends left right

theorem exists_program_of_clear {before after : List (List Char × Nat)} {text : List Char}
    {line : Nat} (split : numberedLines b = before ++ (text, line) :: after)
    (clear : ClearBefore p q line) :
    ∃ r, LaidOut set before r ∧ ∀ problem,
      (p.join (Text.lines a.toList).length r).addLine set ((Text.lines a.toList).length + line)
          text = .error problem →
        ofSource set (a ++ b) = .error ⟨(Text.lines a.toList).length + line, problem⟩ := by
  have lines_right := right
  rw [ofSource_eq_addLines, ← numberedLines, split, addLines_append] at lines_right
  obtain ⟨r, first, rest⟩ := bind_eq_ok_iff.1 lines_right
  have start : LaidOut set [] {} :=
    ⟨rfl, rfl, Nat.zero_le 256, fun _ _ found => nomatch found⟩
  have laid : LaidOut set before r := start.addLines first
  have early : ∀ text ∈ before, text.2 < line := by
    have increasing := pairwise_numberedLines b
    rw [split, List.pairwise_append] at increasing
    intro other mem
    exact increasing.2.2 other mem _ List.mem_cons_self
  -- the lines before this one join without trouble, so this one decides
  obtain ⟨apart, room⟩ :=
    clear.of_begins (laidOut_of_ofSource left).room laid (.addLines rest) early
  refine ⟨r, laid, ?_⟩
  intro problem failed
  have moved := addLines_join (Text.lines a.toList).length first apart room
  rw [join_empty] at moved
  rw [ofSource_append_eq ends left, addLines_eq_error_iff]
  refine ⟨movedLines (Text.lines a.toList).length before, text,
    movedLines (Text.lines a.toList).length after, _, ?_, moved, failed⟩
  rw [split, movedLines, List.map_append, List.map_cons]
  rfl

theorem ofSource_append_of_room (apart : ¬p.Clash q) (room : p.size + q.size ≤ 256) :
    ofSource set (a ++ b) = .ok (p.join (Text.lines a.toList).length q) := by
  have lines_right := right
  rw [ofSource_eq_addLines] at lines_right
  have moved := addLines_join (Text.lines a.toList).length lines_right apart room
  rw [join_empty] at moved
  rw [ofSource_append_eq ends left]
  exact moved

theorem ofSource_append_of_clash {name : String} {first second : Symbol}
    (clash : FirstClash p q name first second)
    (room : ∀ chunk ∈ q.chunks, 256 < p.size + chunk.stop → second.line ≤ chunk.line) :
    ofSource set (a ++ b) =
      .error ⟨(Text.lines a.toList).length + second.line, .duplicateLabel name first.line⟩ := by
  obtain ⟨before, text, after, split, parses, -⟩ :=
    (laidOut_of_ofSource right).declares name second clash.right
  obtain ⟨r, -, fails⟩ := exists_program_of_clear ends left right split ⟨clash.least, room⟩
  apply fails
  rw [addLine_of_label parses, bind_eq_error_iff, SymbolTable.define_eq_error_iff]
  refine .inl ⟨first, ?_, rfl⟩
  rw [join, SymbolTable.get?_join, clash.left]
  rfl

theorem ofSource_append_of_overflow {chunk : Chunk} (overflow : FirstOverflow p q chunk)
    (apart : ∀ name first second, p.symbols.get? name = some first →
      q.symbols.get? name = some second → chunk.line ≤ second.line) :
    ofSource set (a ++ b) =
      .error ⟨(Text.lines a.toList).length + chunk.line,
        .programTooLarge (p.size + chunk.stop)⟩ := by
  obtain ⟨before, text, mnemonic, operands, encoding, after, split, parses, encoded, offset,
      bytes⟩ := (laidOut_of_ofSource right).exists_line_of_chunk overflow.mem
  obtain ⟨r, laid, fails⟩ :=
    exists_program_of_clear ends left right split ⟨apart, overflow.least⟩
  apply fails
  have stop : p.size + r.size + encoding.bytes.length = p.size + chunk.stop := by
    rw [laid.size_eq, Chunk.stop, offset, bytes, Nat.add_assoc]
  rw [addLine_of_instruction parses encoded, append_of_past, size_join, stop]
  rw [size_join, stop]
  exact overflow.past

end Join

theorem ofSource_append {a b : String} (ends : a = "" ∨ a.toList.getLast? = some '\n')
    (left : ofSource set a = .ok p) (right : ofSource set b = .ok q) :
    let lines := (Text.lines a.toList).length
    let clashing := fun (name : String) (first second : Symbol) =>
      Error.mk (lines + second.line) (.duplicateLabel name first.line)
    let overflowing := fun (chunk : Chunk) =>
      Error.mk (lines + chunk.line) (.programTooLarge (p.size + chunk.stop))
    (¬p.Clash q → p.size + q.size ≤ 256 → ofSource set (a ++ b) = .ok (p.join lines q)) ∧
    (p.Clash q → ∃ name first second, FirstClash p q name first second ∧
      (p.size + q.size ≤ 256 → ofSource set (a ++ b) = .error (clashing name first second))) ∧
    (256 < p.size + q.size → ∃ chunk, FirstOverflow p q chunk ∧
      (¬p.Clash q → ofSource set (a ++ b) = .error (overflowing chunk))) ∧
    ∀ name first second chunk, FirstClash p q name first second → FirstOverflow p q chunk →
      second.line ≠ chunk.line ∧
        ofSource set (a ++ b) =
          if second.line < chunk.line then
            .error (clashing name first second)
          else
            .error (overflowing chunk) := by
  intro lines clashing overflowing
  have laid : LaidOut set (numberedLines b) q := laidOut_of_ofSource right
  refine ⟨ofSource_append_of_room ends left right, ?_, ?_, ?_⟩
  . intro clash
    obtain ⟨name, first, second, least⟩ := exists_firstClash clash
    refine ⟨name, first, second, least, ?_⟩
    intro room
    apply ofSource_append_of_clash ends left right least
    intro chunk mem past
    have := laid.stop_le mem
    omega
  . intro large
    obtain ⟨chunk, least⟩ := exists_firstOverflow (laidOut_of_ofSource left).room large
    refine ⟨chunk, least, ?_⟩
    intro apart
    apply ofSource_append_of_overflow ends left right least
    intro name first second declared again
    exact absurd ⟨name, first, second, declared, again⟩ apart
  . intro name first second chunk clash overflow
    -- a line that declares a label has no instruction, so one of the two comes first
    have apart := laid.line_ne (pairwise_numberedLines b) clash.right overflow.mem
    refine ⟨apart, ?_⟩
    split
    . next earlier =>
      apply ofSource_append_of_clash ends left right clash
      intro other mem past
      exact earlier.le.trans (overflow.least other mem past)
    . next later =>
      apply ofSource_append_of_overflow ends left right overflow
      intro other s t declared again
      exact (Nat.not_lt.1 later).trans (clash.least other s t declared again)

def opening : Program where
  chunks := [⟨1, 0, [0x20, 0]⟩]
  symbols := ⟨[("top", ⟨2, 2⟩)]⟩
  fixups := [⟨1, 1, "end"⟩]

def closing : Program where
  chunks := [⟨1, 0, [0x17, 1]⟩, ⟨3, 2, [0x20, 0]⟩]
  symbols := ⟨[("end", ⟨2, 2⟩)]⟩
  fixups := [⟨3, 3, "end"⟩]

def reopening : Program where
  symbols := ⟨[("end", ⟨0, 1⟩), ("top", ⟨0, 2⟩)]⟩

theorem ofSource_append_of_opening :
    ofSource .standard "JMP :end\n:top\n" = .ok opening ∧
      ofSource .standard "INC R1\n:end\nJMP :end" = .ok closing ∧
      ofSource .standard ("JMP :end\n:top\n" ++ "INC R1\n:end\nJMP :end") =
        .ok ⟨[⟨1, 0, [0x20, 0]⟩, ⟨3, 2, [0x17, 1]⟩, ⟨5, 4, [0x20, 0]⟩],
          ⟨[("top", ⟨2, 2⟩), ("end", ⟨4, 4⟩)]⟩, [⟨1, 1, "end"⟩, ⟨5, 5, "end"⟩]⟩ ∧
      ofSource .standard ":end\n:top" = .ok reopening ∧
      ofSource .standard ("JMP :end\n:top\n" ++ ":end\n:top") =
        .error ⟨4, .duplicateLabel "top" 2⟩ := by
  have left : ofSource .standard "JMP :end\n:top\n" = .ok opening := rfl
  have right : ofSource .standard "INC R1\n:end\nJMP :end" = .ok closing := rfl
  have right' : ofSource .standard ":end\n:top" = .ok reopening := rfl
  have only_top : ∀ name first, opening.symbols.get? name = some first → name = "top" := by
    intro name first found
    by_contra other
    simp [SymbolTable.get?, opening, Ne.symm other] at found
  refine ⟨left, right, ?_, right', ?_⟩
  . refine (ofSource_append (.inr rfl) left right).1 ?_ (by decide)
    rintro ⟨name, first, second, declared, again⟩
    rw [only_top name first declared] at again
    contradiction
  . have clash : opening.Clash reopening := ⟨"top", ⟨2, 2⟩, ⟨0, 2⟩, rfl, rfl⟩
    obtain ⟨name, first, second, ⟨declared, again, -⟩, failed⟩ :=
      (ofSource_append (.inr rfl) left right').2.1 clash
    obtain rfl := only_top name first declared
    cases declared
    cases again
    exact failed (by decide)

end Program
end Assembly
end ByteMachine
