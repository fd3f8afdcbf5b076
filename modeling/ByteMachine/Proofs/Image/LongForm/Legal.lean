import ByteMachine.Proofs.Image.LongForm.Grammar
import ByteMachine.Proofs.Image.LongForm.Rows

/-!
This module contains the proof that the long form is decoded without a warning from exactly the
texts that are legal. What remains of a legal text is described by the state of decoding; each line
that is read takes it to what remains after the line.
-/

namespace ByteMachine
namespace LongForm

structure Filling.Fits (f : Filling) : Prop where
  overflowed : f.overflowed = false
  length : f.bytes.length ≤ 256

namespace Decoder

structure Calm (d : Decoder) : Prop where
  warnings : d.warnings = []
  memory_fits : d.memory.Fits
  vram_fits : d.vram.Fits
  memory_untouched : d.inside = .start ∨ d.inside = .filename → d.memory.bytes = []
  vram_untouched : d.inside ≠ .vram → d.vram.bytes = []
  named : d.expectsName → d.inside = .filename

def Remaining (d : Decoder) : List (List Char) → Prop :=
  if d.expectsName then
    AnyLine (After MemoryPart)
  else
    match d.inside with
    | .start => Legal
    | .filename => After MemoryPart
    | .memory => Data (256 - d.current.bytes.length) MemoryEnd
    | .vram => Data (256 - d.current.bytes.length) (· = [])
    | .stop => fun _ => False

theorem calm_start : ({} : Decoder).Calm where
  warnings := rfl
  memory_fits := ⟨rfl, by decide⟩
  vram_fits := ⟨rfl, by decide⟩
  memory_untouched _ := rfl
  vram_untouched _ := rfl
  named := by simp

section Calm

variable {d : Decoder} (calm : d.Calm)
include calm

theorem Calm.current_fits : d.current.Fits := by
  rw [current]
  split
  . exact calm.vram_fits
  . exact calm.memory_fits

theorem Calm.enter {s : Section} {text : List Char} (header : IsHeader s text)
    (order : d.inside.mayPrecede s) :
    { d with inside := s, expectsName := decide (s = Section.filename) }.Calm where
  warnings := calm.warnings
  memory_fits := calm.memory_fits
  vram_fits := calm.vram_fits
  memory_untouched early := by
    apply calm.memory_untouched
    rcases early with rfl | rfl <;> revert order <;> cases d.inside <;> decide
  vram_untouched _ := by
    apply calm.vram_untouched
    have before := header.ne_stop
    intro video
    rw [video] at order
    cases s <;> cases order
    exact before rfl
  named := by simp

theorem Calm.fill (fills : d.Fills) {bytes : List UInt8}
    (room : bytes.length + d.current.bytes.length ≤ 256) : (d.fill bytes).Calm := by
  rw [current] at room
  rw [Decoder.fill]
  split
  . next video =>
    rw [if_pos video] at room
    exact { calm with
      vram_fits := ⟨calm.vram_fits.overflowed, by simpa using room⟩
      vram_untouched := fun other => absurd video other }
  . next video =>
    rw [if_neg video] at room
    have main : d.inside = .memory := fills.2.resolve_right video
    exact { calm with
      memory_fits := ⟨calm.memory_fits.overflowed, by simpa using room⟩
      memory_untouched := by simp [main] }

theorem remaining_nil : d.Remaining [] ↔ d.inside.mayPrecede .stop := by
  rw [Remaining]
  split
  . next expects => simp [calm.named expects, Section.mayPrecede, AnyLine]
  . cases d.inside <;>
      simp [Section.mayPrecede, Legal, after_nil, data_nil, NamePart, MemoryPart, MemoryEnd, Headed]

end Calm

def SectionEnd (s : Section) : List (List Char) → Prop :=
  if s = .memory then MemoryEnd else (· = [])

theorem not_sectionEnd_of_data {text : List Char} (data : IsData text) (s : Section)
    (lines : List (List Char)) : ¬SectionEnd s (text :: lines) := by
  rw [SectionEnd]
  split
  . rw [memoryEnd_cons]
    exact fun next => data.2 .vram next.1
  . exact List.cons_ne_nil text lines

theorem remaining_of_fills {d : Decoder} (fills : d.Fills) :
    d.Remaining = Data (256 - d.current.bytes.length) (SectionEnd d.inside) := by
  rw [Remaining, fills.1, if_neg (by decide)]
  rcases fills.2 with inside | inside <;> rw [inside] <;> rfl

theorem remaining_cons_of_data {d : Decoder} (fills : d.Fills) (fits : d.current.Fits)
    {text : List Char} (data : IsData text) (lines : List (List Char)) :
    d.Remaining (text :: lines) ↔ ∃ bytes,
      List.Forall₂ (fun text byte => Number.byte? text = some byte) (tokens text) bytes ∧
      bytes.length + d.current.bytes.length ≤ 256 ∧ (d.fill bytes).Remaining lines := by
  have filled : ∀ bytes : List UInt8, (d.fill bytes).Remaining =
      Data (256 - d.current.bytes.length - bytes.length) (SectionEnd d.inside) := by
    intro bytes
    rw [remaining_of_fills (fills.fill bytes), inside_fill, length_current_fill, Nat.sub_sub,
      Nat.add_comm]
  have := fits.length
  rw [remaining_of_fills fills, data_cons_of_data data (not_sectionEnd_of_data data _ lines),
    ← tokens_eq_commaTokens, Number.forall_written_iff]
  constructor
  . rintro ⟨⟨bytes, read⟩, room, rest⟩
    rw [read.length_eq] at room rest
    exact ⟨bytes, read, by omega, by rwa [filled]⟩
  . rintro ⟨bytes, read, room, rest⟩
    rw [filled] at rest
    rw [read.length_eq]
    exact ⟨⟨bytes, read⟩, by omega, rest⟩

theorem exists_bytes_of_silent {d : Decoder} (fits : d.current.Fits) {texts : List (List Char)}
    {number : Nat} (silent : (texts.foldl (token number) d).warnings = []) :
    ∃ bytes, List.Forall₂ (fun text byte => Number.byte? text = some byte) texts bytes ∧
      bytes.length + d.current.bytes.length ≤ 256 := by
  induction texts generalizing d with
  | nil => exact ⟨[], .nil, by simpa using fits.length⟩
  | cons text texts ih =>
    rw [List.foldl_cons] at silent
    have first : (d.token number text).warnings = [] := by
      rw [← List.suffix_nil, ← silent]
      exact suffix_foldl_token _ number texts
    rw [token] at first
    split at first
    . next byte read =>
      by_cases room : d.current.bytes.length < 256
      . have length := length_current_fill d [byte]
        rw [List.length_singleton] at length
        have fits : (d.fill [byte]).current.Fits := by
          refine ⟨?_, by omega⟩
          rw [overflowed_current_fill, fits.overflowed]
        rw [token_of_room room read] at silent
        obtain ⟨bytes, rest, room⟩ := ih fits silent
        refine ⟨byte :: bytes, .cons read rest, ?_⟩
        rw [List.length_cons]
        omega
      . rw [push_of_no_room fits.overflowed room] at first
        cases first
    . cases first

/--
Reading the line keeps track of what remains of a legal text, unless it is warned of; then no legal
text goes on with this line.
-/
structure Tracks (d : Decoder) (text : List Char) (next : Decoder) : Prop where
  calm : next.warnings = [] → next.Calm
  remaining : ∀ lines, d.Remaining (text :: lines) ↔ next.warnings = [] ∧ next.Remaining lines

section Tracks

variable {d : Decoder} (calm : d.Calm) {text : List Char} (number : Nat)
include calm

theorem tracks_name (expects : d.expectsName) : d.Tracks text (d.read text number) := by
  have inside : d.inside = .filename := calm.named expects
  have named : d.read text number = { d with expectsName := false, filename := some text } :=
    if_pos expects
  rw [named]
  exact {
    calm := fun _ => { calm with named := by simp }
    remaining := by simp [Remaining, expects, inside, AnyLine, calm.warnings]
  }

section NotName

variable (expects : d.expectsName = false)
include expects

theorem tracks_ignored (ignored : Ignored text) : d.Tracks text (d.read text number) := by
  have other : ∀ s, ¬IsHeader s text := fun s header => header.not_ignored ignored
  rw [read_of_ignored expects number ignored]
  refine ⟨fun _ => calm, fun lines => ?_⟩
  simp only [Remaining, expects, calm.warnings, true_and, Bool.false_eq_true, if_false]
  cases d.inside with
  | start => simp [Legal, after_cons, namePart_cons, memoryPart_cons, other, ignored]
  | filename => simp [after_cons, memoryPart_cons, other, ignored]
  | memory => exact data_cons_of_ignored ignored (by simp [memoryEnd_cons, other])
  | vram => exact data_cons_of_ignored ignored (by simp)
  | stop => rfl

theorem remaining_cons_of_header {s : Section} (header : IsHeader s text)
    (lines : List (List Char)) :
    d.Remaining (text :: lines) ↔ d.inside.mayPrecede s ∧
      { d with inside := s, expectsName := decide (s = Section.filename) }.Remaining lines := by
  have only : ∀ t, IsHeader t text ↔ t = s := fun _ => header.iff_eq
  have before := header.ne_stop
  have memory := calm.memory_untouched
  have vram := calm.vram_untouched
  simp only [Remaining, expects, Bool.false_eq_true, if_false]
  cases inside : d.inside with
  | start =>
    simp only [Legal, after_cons, namePart_cons, memoryPart_cons, only, header.not_ignored]
    cases s <;> simp [Section.mayPrecede, current, memory (.inl inside)]
  | filename =>
    simp only [after_cons, memoryPart_cons, only, header.not_ignored]
    cases s <;> simp [Section.mayPrecede, current, memory (.inr inside)]
  | memory =>
    simp only [data_cons_of_header header, memoryEnd_cons, only]
    cases s <;> simp [Section.mayPrecede, current, vram (by simp [inside])] at before ⊢
  | vram =>
    simp only [data_cons_of_header header]
    cases s <;> simp [Section.mayPrecede] at before ⊢
  | stop => simp [Section.mayPrecede]

theorem tracks_header {s : Section} (header : IsHeader s text) :
    d.Tracks text (d.read text number) := by
  rw [read_of_header expects number header, enter]
  split
  . next order =>
    refine ⟨fun _ => ?_, fun lines => ?_⟩
    . exact calm.enter header order
    . simp [remaining_cons_of_header calm expects header, order, calm.warnings]
  . next order =>
    refine ⟨by simp [warn], fun lines => ?_⟩
    simp [remaining_cons_of_header calm expects header, order, warn]

theorem tracks_data_of_fills (inside : d.inside = .memory ∨ d.inside = .vram)
    (data : IsData text) : d.Tracks text (d.read text number) := by
  have fills : d.Fills := ⟨expects, inside⟩
  have fits : d.current.Fits := calm.current_fits
  rw [read_of_data expects number data, Decoder.data, if_pos inside, tokens_trim]
  refine ⟨fun silent => ?_, fun lines => ?_⟩
  . obtain ⟨bytes, read, room⟩ := exists_bytes_of_silent fits silent
    rw [foldl_token_of_room read room]
    exact calm.fill fills room
  . rw [remaining_cons_of_data fills fits data]
    constructor
    . rintro ⟨bytes, read, room, rest⟩
      rw [foldl_token_of_room read room]
      exact ⟨(calm.fill fills room).warnings, rest⟩
    . rintro ⟨silent, rest⟩
      obtain ⟨bytes, read, room⟩ := exists_bytes_of_silent fits silent
      rw [foldl_token_of_room read room] at rest
      exact ⟨bytes, read, room, rest⟩

omit calm in
theorem tracks_data_outside (outside : ¬(d.inside = .memory ∨ d.inside = .vram))
    (data : IsData text) : d.Tracks text (d.read text number) := by
  have other : ∀ s, ¬IsHeader s text := data.2
  rw [read_of_data expects number data, Decoder.data, if_neg outside]
  refine ⟨by simp [warn], fun lines => ?_⟩
  simp only [Remaining, expects, Bool.false_eq_true, if_false, warn, reduceCtorEq, false_and,
    iff_false]
  cases inside : d.inside with
  | start => simp [Legal, after_cons, namePart_cons, memoryPart_cons, other, data.1]
  | filename => simp [after_cons, memoryPart_cons, other, data.1]
  | memory => exact absurd (.inl inside) outside
  | vram => exact absurd (.inr inside) outside
  | stop => simp

end NotName

theorem tracks_read : d.Tracks text (d.read text number) := by
  cases expects : d.expectsName with
  | true => exact tracks_name calm number expects
  | false =>
    rcases ignored_or_header_or_data text with ignored | ⟨s, header⟩ | data
    . exact tracks_ignored calm number expects ignored
    . exact tracks_header calm number expects header
    . by_cases inside : d.inside = .memory ∨ d.inside = .vram
      . exact tracks_data_of_fills calm number expects inside data
      . exact tracks_data_outside number expects inside data

end Tracks

theorem warnings_finish_feed_eq_nil_iff {d : Decoder} (calm : d.Calm) (number : Nat)
    (lines : List (List Char)) :
    (d.feed number lines).finish.warnings = [] ↔ d.Remaining (lines.map dropReturn) := by
  induction lines generalizing d number with
  | nil =>
    rw [List.map_nil, remaining_nil calm, feed, List.zipIdx_nil, List.foldl_nil, warnings_finish]
    simp [calm.warnings]
  | cons text lines ih =>
    have tracks : d.Tracks (dropReturn text) (d.read (dropReturn text) number) :=
      tracks_read calm number
    rw [List.map_cons, tracks.remaining, feed_cons, line_eq_read]
    constructor
    . intro silent
      -- a warning of the first line would still be there at the end
      have first : (d.read (dropReturn text) number).warnings = [] := by
        rw [← List.suffix_nil, ← silent]
        exact (suffix_feed _ _ lines).trans (suffix_finish _)
      exact ⟨first, (ih (tracks.calm first) _).1 silent⟩
    . rintro ⟨first, rest⟩
      exact (ih (tracks.calm first) _).2 rest

end Decoder

theorem decode_warnings_eq_nil_iff (text : String) :
    (decode text).warnings = [] ↔ Legal ((Text.lines text.toList).map Decoder.dropReturn) := by
  have silent :=
    Decoder.warnings_finish_feed_eq_nil_iff Decoder.calm_start 1 (Text.lines text.toList)
  rw [decode, decodeChars, List.reverse_eq_nil_iff]
  exact silent

example : (decode "FILENAME\n# demo\nMEMORY\n1, 0x02,\n").warnings = [] := by
  rfl

end LongForm
end ByteMachine
