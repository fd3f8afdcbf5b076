import ByteMachine.Proofs.Image.LongForm.Reading
import ByteMachine.Proofs.Text.Number

/-!
This module contains the grammar of the long form, line by line, and how each kind of line goes
through it.

```
legal  = ignored* (name | memory)
name   = FILENAME, any line, ignored* memory
memory = MEMORY, (ignored | data)*, vram?
vram   = VRAM, (ignored | data)*
```
-/

namespace ByteMachine
namespace LongForm

def dataTokens (lines : List (List Char)) : List (List Char) :=
  (lines.filter (¬Ignored ·)).flatMap commaTokens

structure Body (room : Nat) (lines : List (List Char)) : Prop where
  kinds : ∀ text ∈ lines, Ignored text ∨ IsData text
  bytes : ∀ token ∈ dataTokens lines, ∃ n ≤ 255, Number.Written token n
  length : (dataTokens lines).length ≤ room

def AnyLine (Rest : List (List Char) → Prop) : List (List Char) → Prop
  | [] => False
  | _ :: lines => Rest lines

def Headed (s : Section) (Rest : List (List Char) → Prop) : List (List Char) → Prop
  | [] => False
  | text :: lines => IsHeader s text ∧ Rest lines

def After (Rest : List (List Char) → Prop) (lines : List (List Char)) : Prop :=
  ∃ skipped rest, lines = skipped ++ rest ∧ (∀ text ∈ skipped, Ignored text) ∧ Rest rest

def Data (room : Nat) (Rest : List (List Char) → Prop) (lines : List (List Char)) : Prop :=
  ∃ body rest, lines = body ++ rest ∧ Body room body ∧ Rest rest

def VramPart : List (List Char) → Prop :=
  Headed .vram (Data 256 (· = []))

def MemoryEnd (lines : List (List Char)) : Prop :=
  lines = [] ∨ VramPart lines

def MemoryPart : List (List Char) → Prop :=
  Headed .memory (Data 256 MemoryEnd)

/--
The name is the very next line, even if it is blank or looks like a comment or a header.
-/
def NamePart : List (List Char) → Prop :=
  Headed .filename (AnyLine (After MemoryPart))

def Legal : List (List Char) → Prop :=
  After fun lines => NamePart lines ∨ MemoryPart lines

section Lines

variable {Rest : List (List Char) → Prop} {text : List Char} {lines : List (List Char)}

theorem after_nil : After Rest [] ↔ Rest [] := by
  simp [After]

theorem after_cons :
    After Rest (text :: lines) ↔ Rest (text :: lines) ∨ Ignored text ∧ After Rest lines := by
  simp only [After, List.cons_eq_append_iff]
  constructor
  . rintro ⟨skipped, rest, ⟨rfl, rfl⟩ | ⟨more, rfl, rfl⟩, ignored, legal⟩
    . exact .inl legal
    . rw [List.forall_mem_cons] at ignored
      exact .inr ⟨ignored.1, more, rest, rfl, ignored.2, legal⟩
  . rintro (legal | ⟨first, more, rest, rfl, ignored, legal⟩)
    . exact ⟨[], _, .inl ⟨rfl, rfl⟩, by simp, legal⟩
    . exact ⟨text :: more, rest, .inr ⟨more, rfl, rfl⟩, by simpa [first] using ignored, legal⟩

theorem body_nil (room : Nat) : Body room [] where
  kinds := by simp
  bytes := by simp [dataTokens]
  length := by simp [dataTokens]

theorem data_cons {room : Nat} :
    Data room Rest (text :: lines) ↔ Rest (text :: lines) ∨
      ∃ body rest, lines = body ++ rest ∧ Body room (text :: body) ∧ Rest rest := by
  simp only [Data, List.cons_eq_append_iff]
  constructor
  . rintro ⟨body, rest, ⟨rfl, rfl⟩ | ⟨more, rfl, rfl⟩, body, legal⟩
    . exact .inl legal
    . exact .inr ⟨more, rest, rfl, body, legal⟩
  . rintro (legal | ⟨more, rest, rfl, body, legal⟩)
    . exact ⟨[], _, .inl ⟨rfl, rfl⟩, body_nil room, legal⟩
    . exact ⟨text :: more, rest, .inr ⟨more, rfl, rfl⟩, body, legal⟩

theorem data_nil {room : Nat} : Data room Rest [] ↔ Rest [] := by
  simp [Data, body_nil]

theorem body_cons_of_ignored (ignored : Ignored text) {room : Nat} :
    Body room (text :: lines) ↔ Body room lines := by
  have tokens : dataTokens (text :: lines) = dataTokens lines := by simp [dataTokens, ignored]
  constructor
  . rintro ⟨kinds, bytes, length⟩
    rw [tokens] at bytes length
    exact ⟨fun other mem => kinds other (List.mem_cons_of_mem text mem), bytes, length⟩
  . rintro ⟨kinds, bytes, length⟩
    rw [← tokens] at bytes length
    exact ⟨List.forall_mem_cons.2 ⟨.inl ignored, kinds⟩, bytes, length⟩

theorem body_cons_of_data (data : IsData text) {room : Nat} :
    Body room (text :: lines) ↔
      (∀ token ∈ commaTokens text, ∃ n ≤ 255, Number.Written token n) ∧
      (commaTokens text).length ≤ room ∧
      Body (room - (commaTokens text).length) lines := by
  have tokens : dataTokens (text :: lines) = commaTokens text ++ dataTokens lines := by
    simp [dataTokens, data.1]
  constructor
  . rintro ⟨kinds, bytes, length⟩
    rw [tokens, List.forall_mem_append] at bytes
    rw [tokens, List.length_append] at length
    refine ⟨bytes.1, by omega, ?_, bytes.2, by omega⟩
    exact fun other mem => kinds other (List.mem_cons_of_mem text mem)
  . rintro ⟨first, room, kinds, bytes, length⟩
    refine ⟨List.forall_mem_cons.2 ⟨.inr data, kinds⟩, ?_, ?_⟩
    . rw [tokens, List.forall_mem_append]
      exact ⟨first, bytes⟩
    . rw [tokens, List.length_append]
      omega

theorem not_body_cons_of_header {s : Section} (header : IsHeader s text) {room : Nat} :
    ¬Body room (text :: lines) := by
  intro body
  rcases body.kinds text List.mem_cons_self with ignored | data
  . exact header.not_ignored ignored
  . exact data.2 s header

theorem vramPart_cons :
    VramPart (text :: lines) ↔ IsHeader .vram text ∧ Data 256 (· = []) lines := Iff.rfl

theorem memoryPart_cons :
    MemoryPart (text :: lines) ↔ IsHeader .memory text ∧ Data 256 MemoryEnd lines := Iff.rfl

theorem namePart_cons :
    NamePart (text :: lines) ↔ IsHeader .filename text ∧ AnyLine (After MemoryPart) lines := Iff.rfl

theorem memoryEnd_cons :
    MemoryEnd (text :: lines) ↔ IsHeader .vram text ∧ Data 256 (· = []) lines := by
  simp [MemoryEnd, vramPart_cons]

theorem data_cons_of_ignored (ignored : Ignored text) (other : ¬Rest (text :: lines)) {room : Nat} :
    Data room Rest (text :: lines) ↔ Data room Rest lines := by
  simp only [data_cons, other, false_or, body_cons_of_ignored ignored]
  rfl

theorem data_cons_of_data (data : IsData text) (other : ¬Rest (text :: lines)) {room : Nat} :
    Data room Rest (text :: lines) ↔
      (∀ token ∈ commaTokens text, ∃ n ≤ 255, Number.Written token n) ∧
      (commaTokens text).length ≤ room ∧
      Data (room - (commaTokens text).length) Rest lines := by
  simp only [data_cons, other, false_or, body_cons_of_data data]
  constructor
  . rintro ⟨body, rest, split, ⟨bytes, length, body⟩, legal⟩
    exact ⟨bytes, length, _, rest, split, body, legal⟩
  . rintro ⟨bytes, length, _, rest, split, body, legal⟩
    exact ⟨_, rest, split, ⟨bytes, length, body⟩, legal⟩

theorem data_cons_of_header {s : Section} (header : IsHeader s text) {room : Nat} :
    Data room Rest (text :: lines) ↔ Rest (text :: lines) := by
  simp [data_cons, not_body_cons_of_header header]

end Lines

end LongForm
end ByteMachine
