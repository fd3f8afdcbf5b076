import ByteMachine.Image.LongForm
import ByteMachine.Proofs.Text.Split
import Mathlib.Data.List.DropRight
import Mathlib.Data.List.Forall2

/-!
This module contains what decoding does with a line: it is passed over, or it is a header and opens
a section, or its bytes go into the memory of the current section, as long as there is room. No
warning is taken back.
-/

namespace ByteMachine
namespace LongForm

def Ignored (text : List Char) : Prop :=
  Text.trim text = [] ∨ (Text.trim text).head? = some '#'

def IsHeader (s : Section) (text : List Char) : Prop :=
  ∃ header, s.header = some header ∧ Text.trim text = header.toList

def IsData (text : List Char) : Prop :=
  ¬Ignored text ∧ ∀ s, ¬IsHeader s text

instance : DecidablePred Ignored := fun _ => inferInstanceAs (Decidable (_ ∨ _))

def commaTokens (text : List Char) : List (List Char) :=
  ((text.splitOn ',').map fun piece =>
    (piece.dropWhile Text.isBlank).rdropWhile Text.isBlank).filter (· ≠ [])

theorem tokens_eq_commaTokens (text : List Char) : Decoder.tokens text = commaTokens text := by
  rw [Decoder.tokens, Text.split_eq_splitOnP]
  rfl

theorem IsHeader.not_ignored {s : Section} {text : List Char} (h : IsHeader s text) :
    ¬Ignored text := by
  obtain ⟨header, known, trimmed⟩ := h
  rw [Ignored, trimmed]
  cases s <;> cases known <;> decide

theorem IsHeader.ne_stop {s : Section} {text : List Char} (h : IsHeader s text) : s ≠ .stop := by
  rintro rfl
  obtain ⟨_, known, -⟩ := h
  cases known

theorem IsHeader.unique {s t : Section} {text : List Char} (first : IsHeader s text)
    (second : IsHeader t text) : s = t := by
  obtain ⟨header, known, trimmed⟩ := first
  obtain ⟨other, known', trimmed'⟩ := second
  have same : header = other := String.toList_inj.1 (trimmed.symm.trans trimmed')
  rw [← same] at known'
  have injective : ∀ s t : Section, s.header = t.header → s.header.isSome → s = t := by
    intro s t
    cases s <;> cases t <;> decide
  apply injective s t (known.trans known'.symm)
  rw [known, Option.isSome_some]

theorem IsHeader.iff_eq {s t : Section} {text : List Char} (h : IsHeader s text) :
    IsHeader t text ↔ t = s := by
  constructor
  . intro other
    exact other.unique h
  . rintro rfl
    exact h

theorem ignored_or_header_or_data (text : List Char) :
    Ignored text ∨ (∃ s, IsHeader s text) ∨ IsData text := by
  by_cases ignored : Ignored text
  . exact .inl ignored
  . by_cases header : ∃ s, IsHeader s text
    . exact .inr (.inl header)
    . exact .inr (.inr ⟨ignored, not_exists.1 header⟩)

namespace Decoder

def read (d : Decoder) (text : List Char) (number : Nat) : Decoder :=
  if d.expectsName then
    { d with expectsName := false, filename := some text }
  else
    d.trimmed number (Text.trim text)

theorem line_eq_read (d : Decoder) (text : List Char) (number : Nat) :
    d.line text number = d.read (dropReturn text) number := rfl

section Read

variable {d : Decoder} (expects : d.expectsName = false) {text : List Char} (number : Nat)
include expects

theorem read_of_ignored (ignored : Ignored text) : d.read text number = d := by
  simp only [read, expects, Bool.false_eq_true, if_false]
  rw [trimmed]
  exact if_pos ignored

theorem read_of_header {next : Section} (header : IsHeader next text) :
    d.read text number = { d.enter number next with expectsName := decide (next = .filename) } := by
  obtain ⟨header, known, trimmed⟩ := header
  have kept : (d.enter number next).expectsName = false := by
    rw [← expects, enter]
    split <;> rfl
  simp only [read, expects, Bool.false_eq_true, if_false]
  rw [trimmed]
  cases next <;> cases known
  . rfl
  . rw [decide_eq_false (by decide), ← kept]
    rfl
  . rw [decide_eq_false (by decide), ← kept]
    rfl

theorem read_of_data (data : IsData text) :
    d.read text number = d.data number (Text.trim text) := by
  have other : ∀ s header, Section.header s = some header → Text.trim text ≠ header.toList := by
    intro s header known same
    exact data.2 s ⟨header, known, same⟩
  have seen : ¬(Text.trim text = [] ∨ (Text.trim text).head? = some '#') := data.1
  simp only [read, expects, Bool.false_eq_true, if_false]
  rw [trimmed, if_neg seen, if_neg (other .filename _ rfl), if_neg (other .memory _ rfl),
    if_neg (other .vram _ rfl)]

end Read

def current (d : Decoder) : Filling :=
  if d.inside = .vram then d.vram else d.memory

/--
Puts bytes into the memory they go to, whether or not there is room.
-/
def fill (d : Decoder) (bytes : List UInt8) : Decoder :=
  if d.inside = .vram then
    { d with vram.bytes := bytes.reverse ++ d.vram.bytes }
  else
    { d with memory.bytes := bytes.reverse ++ d.memory.bytes }

@[simp]
theorem inside_fill (d : Decoder) (bytes : List UInt8) : (d.fill bytes).inside = d.inside := by
  rw [fill]
  split <;> rfl

@[simp]
theorem expectsName_fill (d : Decoder) (bytes : List UInt8) :
    (d.fill bytes).expectsName = d.expectsName := by
  rw [fill]
  split <;> rfl

theorem length_current_fill (d : Decoder) (bytes : List UInt8) :
    (d.fill bytes).current.bytes.length = bytes.length + d.current.bytes.length := by
  rw [current, inside_fill, fill, current]
  split <;> simp

theorem overflowed_current_fill (d : Decoder) (bytes : List UInt8) :
    (d.fill bytes).current.overflowed = d.current.overflowed := by
  rw [current, inside_fill, fill, current]
  split <;> simp [*]

theorem fill_nil (d : Decoder) : d.fill [] = d := by
  rw [fill]
  split <;> rfl

theorem fill_append (d : Decoder) (first second : List UInt8) :
    d.fill (first ++ second) = (d.fill first).fill second := by
  simp only [fill]
  split <;> simp [*]

section Push

variable (d : Decoder) (number : Nat) (byte : UInt8)

theorem memory_push :
    (d.push number byte).memory =
      if d.inside = .vram then d.memory else (d.memory.push byte).1 := by
  rw [push]
  by_cases video : d.inside = .vram
  . simp only [if_pos video]
    split <;> rfl
  . simp only [if_neg video]
    split <;> rfl

theorem vram_push :
    (d.push number byte).vram = if d.inside = .vram then (d.vram.push byte).1 else d.vram := by
  rw [push]
  by_cases video : d.inside = .vram
  . simp only [if_pos video]
    split <;> rfl
  . simp only [if_neg video]
    split <;> rfl

theorem warnings_push :
    (d.push number byte).warnings =
      if (d.current.push byte).2 then .sectionOverflow number d.inside :: d.warnings
      else d.warnings := by
  rw [push, current]
  by_cases video : d.inside = .vram
  . simp only [if_pos video]
    split <;> rfl
  . simp only [if_neg video]
    split <;> rfl

end Push

theorem push_of_room {d : Decoder} (room : d.current.bytes.length < 256) (number : Nat)
    (byte : UInt8) : d.push number byte = d.fill [byte] := by
  have pushed : d.current.push byte =
      ({ d.current with bytes := byte :: d.current.bytes }, false) :=
    if_pos room
  rw [current] at pushed
  rw [push, pushed, fill]
  by_cases video : d.inside = .vram <;> simp [video]

theorem token_of_room {d : Decoder} (room : d.current.bytes.length < 256) {text : List Char}
    {byte : UInt8} (read : Number.byte? text = some byte) (number : Nat) :
    d.token number text = d.fill [byte] := by
  rw [token, read]
  exact push_of_room room number byte

theorem push_of_no_room {d : Decoder} (fits : d.current.overflowed = false)
    (room : ¬d.current.bytes.length < 256) (number : Nat) (byte : UInt8) :
    (d.push number byte).warnings = .sectionOverflow number d.inside :: d.warnings := by
  rw [warnings_push, Filling.push, if_neg room, fits]
  rfl

theorem foldl_token_of_room {d : Decoder} {texts : List (List Char)} {bytes : List UInt8}
    (read : List.Forall₂ (fun text byte => Number.byte? text = some byte) texts bytes)
    (room : bytes.length + d.current.bytes.length ≤ 256) (number : Nat) :
    texts.foldl (token number) d = d.fill bytes := by
  induction read generalizing d with
  | nil => rw [List.foldl_nil, fill_nil]
  | @cons text b texts bytes first rest ih =>
    rw [List.length_cons] at room
    rw [List.foldl_cons, token_of_room (by omega) first, ih, ← fill_append, List.singleton_append]
    rw [length_current_fill, List.length_singleton]
    omega

def Fills (d : Decoder) : Prop :=
  d.expectsName = false ∧ (d.inside = .memory ∨ d.inside = .vram)

theorem Fills.fill {d : Decoder} (fills : d.Fills) (bytes : List UInt8) : (d.fill bytes).Fills := by
  rw [Fills, expectsName_fill, inside_fill]
  exact fills

def feed (d : Decoder) (number : Nat) (lines : List (List Char)) : Decoder :=
  (lines.zipIdx number).foldl (fun d (text, number) => line d text number) d

theorem feed_cons (d : Decoder) (number : Nat) (text : List Char) (lines : List (List Char)) :
    d.feed number (text :: lines) = (d.line text number).feed (number + 1) lines := rfl

theorem feed_append (d : Decoder) (number : Nat) (before after : List (List Char)) :
    d.feed number (before ++ after) =
      (d.feed number before).feed (number + before.length) after := by
  rw [feed, List.zipIdx_append, List.foldl_append]
  rfl

section Grows

variable (d : Decoder) (number : Nat)

theorem suffix_enter (next : Section) : d.warnings <:+ (d.enter number next).warnings := by
  rw [enter]
  split
  . exact List.suffix_rfl
  . exact List.suffix_cons _ _

theorem suffix_push (byte : UInt8) : d.warnings <:+ (d.push number byte).warnings := by
  rw [warnings_push]
  split
  . exact List.suffix_cons _ _
  . exact List.suffix_rfl

theorem suffix_token (text : List Char) : d.warnings <:+ (d.token number text).warnings := by
  rw [token]
  split
  . exact suffix_push d number _
  . exact List.suffix_cons _ _

theorem suffix_foldl_token (texts : List (List Char)) :
    d.warnings <:+ (texts.foldl (token number) d).warnings := by
  induction texts generalizing d with
  | nil => exact List.suffix_rfl
  | cons text texts ih => exact (suffix_token d number text).trans (ih _)

theorem suffix_read (text : List Char) : d.warnings <:+ (d.read text number).warnings := by
  rw [read]
  split
  . exact List.suffix_rfl
  . rw [trimmed]
    repeat' split
    . exact List.suffix_rfl
    . exact suffix_enter d number .filename
    . exact suffix_enter d number .memory
    . exact suffix_enter d number .vram
    . rw [data]
      split
      . exact suffix_foldl_token d number _
      . exact List.suffix_cons _ _

theorem warnings_finish :
    d.finish.warnings =
      if d.inside.mayPrecede .stop then d.warnings
      else .outOfOrderSection 0 .stop d.inside :: d.warnings := by
  rw [finish]
  cases d.expectsName <;> split <;> rfl

theorem suffix_finish : d.warnings <:+ d.finish.warnings := by
  rw [warnings_finish]
  split
  . exact List.suffix_rfl
  . exact List.suffix_cons _ _

theorem suffix_feed (lines : List (List Char)) :
    d.warnings <:+ (d.feed number lines).warnings := by
  induction lines generalizing d number with
  | nil => exact List.suffix_rfl
  | cons text lines ih => exact (suffix_read d number _).trans (ih _ _)

end Grows

end Decoder
end LongForm
end ByteMachine
