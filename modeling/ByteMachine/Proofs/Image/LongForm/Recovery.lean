import ByteMachine.Proofs.Image.LongForm.Outline
import ByteMachine.Proofs.Image.LongForm.Rows

/-!
This module contains what decoding recovers from any text, and what it warns of: both are read off
the outline of the text.
-/

namespace ByteMachine
namespace LongForm

def Filling.ofBytes (bytes : List UInt8) : Filling where
  bytes := (bytes.take 256).reverse
  overflowed := decide (256 < bytes.length)

theorem Filling.push_ofBytes (bytes : List UInt8) (b : UInt8) :
    (ofBytes bytes).push b = (ofBytes (bytes ++ [b]), decide (bytes.length = 256)) := by
  have kept : (bytes.take 256).reverse.length = min 256 bytes.length := by
    rw [List.length_reverse, List.length_take]
  have grown : (bytes ++ [b]).length = bytes.length + 1 := by
    rw [List.length_append, List.length_singleton]
  rw [push, ofBytes, ofBytes, kept, grown]
  by_cases room : bytes.length < 256
  . rw [if_pos (by omega), List.take_of_length_le (by omega), List.take_of_length_le (by omega),
      List.reverse_append, decide_eq_false (by omega), decide_eq_false (by omega),
      decide_eq_false (by omega)]
    rfl
  . have first : (!decide (256 < bytes.length)) = decide (bytes.length = 256) := by
      rw [← decide_not, decide_eq_decide]
      omega
    rw [if_neg (by omega), List.take_append_of_le_length (by omega), first,
      decide_eq_true (by omega : 256 < bytes.length + 1)]

theorem Filling.toList_ofBytes (bytes : List UInt8) :
    (Memory.ofBytes (ofBytes bytes).bytes.reverse).toList =
      bytes.take 256 ++ List.replicate (256 - bytes.length) 0 := by
  have zeros : 256 - (bytes.take 256).length = 256 - bytes.length := by
    rw [List.length_take]
    omega
  rw [ofBytes, List.reverse_reverse, Memory.toList_ofBytes, List.take_take, Nat.min_self, zeros]

namespace Decoder

structure Accounts (d : Decoder) (items : List Item) : Prop where
  memory : d.memory = .ofBytes (sectionBytes .memory items)
  vram : d.vram = .ofBytes (sectionBytes .vram items)
  warnings : d.warnings = (itemWarnings items).reverse

def cursor (d : Decoder) : Section × Bool × Option (List Char) :=
  (d.inside, d.expectsName, d.filename)

theorem cursor_enter (d : Decoder) (number : Nat) (s : Section) :
    (d.enter number s).cursor = (s, d.expectsName, d.filename) := by
  rw [enter]
  split <;> rfl

theorem cursor_token (d : Decoder) (number : Nat) (text : List Char) :
    (d.token number text).cursor = d.cursor := by
  rw [token]
  split
  . rw [push]
    split
    next filling first _ =>
    cases first <;> split <;> rfl
  . rfl

theorem cursor_foldl_token (d : Decoder) (number : Nat) (texts : List (List Char)) :
    (texts.foldl (token number) d).cursor = d.cursor := by
  induction texts generalizing d with
  | nil => rfl
  | cons text texts ih => rw [List.foldl_cons, ih, cursor_token]

section Items

variable {d : Decoder} {items : List Item} (accounts : d.Accounts items)
include accounts

theorem Accounts.of_no_byte {e : Decoder} {item : Item} (none : ∀ s, item.byte? s = none)
    (memory : e.memory = d.memory) (vram : e.vram = d.vram)
    (warnings : e.warnings = (item.warning? items).toList ++ d.warnings) :
    e.Accounts (items ++ [item]) where
  memory := by
    rw [memory, accounts.memory, sectionBytes_append, none, Option.toList_none, List.append_nil]
  vram := by
    rw [vram, accounts.vram, sectionBytes_append, none, Option.toList_none, List.append_nil]
  warnings := by
    rw [warnings, accounts.warnings, itemWarnings_append, List.reverse_append]
    cases item.warning? items <;> rfl

theorem Accounts.enter (number : Nat) (s : Section) :
    (d.enter number s).Accounts (items ++ [.header number s d.inside]) := by
  apply accounts.of_no_byte fun _ => rfl
  . rw [Decoder.enter]
    split <;> rfl
  . rw [Decoder.enter]
    split <;> rfl
  . rw [Decoder.enter, Item.warning?]
    split <;> rfl

theorem Accounts.stray (number : Nat) :
    (d.warn (.byteOutsideSection number)).Accounts (items ++ [.stray number]) := by
  apply accounts.of_no_byte fun _ => rfl
  . rfl
  . rfl
  . rfl

theorem Accounts.push (fills : d.inside = .memory ∨ d.inside = .vram) (number : Nat)
    {text : List Char} {byte : UInt8} (read : Number.writtenByte? text = some byte) :
    (d.push number byte).Accounts (items ++ [.token number d.inside text]) := by
  have put : ∀ s, sectionBytes s (items ++ [.token number d.inside text]) =
      sectionBytes s items ++ if d.inside = s then [byte] else [] := by
    intro s
    rw [sectionBytes_append, Item.byte?, read]
    split <;> rfl
  have warned : itemWarnings (items ++ [.token number d.inside text]) =
      itemWarnings items ++ if (sectionBytes d.inside items).length = 256 then
        [.sectionOverflow number d.inside] else [] := by
    rw [itemWarnings_append, Item.warning?, read]
    dsimp only
    split <;> rfl
  have current : d.current = .ofBytes (sectionBytes d.inside items) := by
    rcases fills with inside | inside
    . rw [Decoder.current, inside, if_neg (by decide), accounts.memory]
    . rw [Decoder.current, inside, if_pos rfl, accounts.vram]
  constructor
  . rw [memory_push, put, accounts.memory, Filling.push_ofBytes]
    rcases fills with inside | inside <;> rw [inside] <;> simp
  . rw [vram_push, put, accounts.vram, Filling.push_ofBytes]
    rcases fills with inside | inside <;> rw [inside] <;> simp
  . rw [warnings_push, current, Filling.push_ofBytes, warned, accounts.warnings]
    by_cases full : (sectionBytes d.inside items).length = 256 <;> simp [full]

theorem Accounts.token (fills : d.inside = .memory ∨ d.inside = .vram) (number : Nat)
    (text : List Char) :
    (d.token number text).Accounts (items ++ [.token number d.inside text]) := by
  rw [Decoder.token, Number.byte?_eq_writtenByte?]
  split
  . next byte read => exact accounts.push fills number read
  . next illegal =>
    apply accounts.of_no_byte
    . intro s
      rw [Item.byte?, illegal, ite_self]
    . rfl
    . rfl
    . rw [Item.warning?, illegal]
      rfl

theorem Accounts.foldl_token (fills : d.inside = .memory ∨ d.inside = .vram) (number : Nat)
    (texts : List (List Char)) :
    (texts.foldl (Decoder.token number) d).Accounts
      (items ++ texts.map (.token number d.inside)) := by
  induction texts generalizing d items with
  | nil => rwa [List.map_nil, List.append_nil]
  | cons text texts ih =>
    have still : (d.token number text).inside = d.inside :=
      congrArg Prod.fst (cursor_token d number text)
    have rest := ih (accounts.token fills number text) (still ▸ fills)
    rw [still] at rest
    rwa [List.append_assoc, List.singleton_append] at rest

end Items

structure Recovers (d : Decoder) (lines : List (List Char)) : Prop where
  cursor : d.cursor =
    (sectionBelow lines.reverse, awaitsName lines.reverse, (givenNames lines).getLast?)
  accounts : d.Accounts (items lines)

theorem recovers_start : ({} : Decoder).Recovers [] where
  cursor := rfl
  accounts := ⟨rfl, rfl, rfl⟩

section Lines

variable {d : Decoder} {lines : List (List Char)} (recovers : d.Recovers lines)
include recovers

theorem Recovers.inside : d.inside = sectionBelow lines.reverse :=
  congrArg Prod.fst recovers.cursor

theorem Recovers.expectsName : d.expectsName = awaitsName lines.reverse :=
  congrArg (·.2.1) recovers.cursor

theorem Recovers.filename : d.filename = (givenNames lines).getLast? :=
  congrArg (·.2.2) recovers.cursor

theorem Recovers.append {e : Decoder} {text : List Char} {role : Role}
    (known : Place.role ⟨text, lines.reverse⟩ = role)
    (moved : e.cursor =
      (role.below d.inside, decide (role = .header .filename),
        if role = .name then some text else d.filename))
    (accounts : e.Accounts (items lines ++ Place.items ⟨text, lines.reverse⟩)) :
    e.Recovers (lines ++ [text]) where
  cursor := by
    rw [moved, List.reverse_append, List.reverse_singleton, List.singleton_append, sectionBelow,
      awaitsName_cons, givenNames_append, known, recovers.inside, recovers.filename]
    cases role <;> simp
  accounts := by
    rwa [items_append]

theorem Recovers.read_name (awaits : awaitsName lines.reverse) (text : List Char) (number : Nat) :
    (d.read text number).Recovers (lines ++ [text]) := by
  have role := Place.role_of_awaitsName (p := ⟨text, lines.reverse⟩) awaits
  have expects := recovers.expectsName.trans awaits
  rw [Decoder.read, if_pos expects]
  apply recovers.append role
  . rfl
  . rw [Place.items, role, List.append_nil]
    exact { recovers.accounts with }

section NoName

variable (awaits : awaitsName lines.reverse = false) {text : List Char}
include awaits

theorem Recovers.read_ignored (ignored : Ignored text) (number : Nat) :
    (d.read text number).Recovers (lines ++ [text]) := by
  have role := Place.role_of_ignored (p := ⟨text, lines.reverse⟩) awaits ignored
  have expects := recovers.expectsName.trans awaits
  rw [read_of_ignored expects _ ignored]
  apply recovers.append role
  . rw [Decoder.cursor, expects]
    rfl
  . rw [Place.items, role, List.append_nil]
    exact recovers.accounts

theorem Recovers.read_header {s : Section} (header : IsHeader s text) :
    (d.read text (lines.length + 1)).Recovers (lines ++ [text]) := by
  have role := Place.role_of_header (p := ⟨text, lines.reverse⟩) awaits header
  have entered := recovers.accounts.enter (lines.length + 1) s
  have moved := cursor_enter d (lines.length + 1) s
  have inside : (d.enter (lines.length + 1) s).inside = s := congrArg Prod.fst moved
  have filename : (d.enter (lines.length + 1) s).filename = d.filename := congrArg (·.2.2) moved
  rw [read_of_header (recovers.expectsName.trans awaits) _ header]
  apply recovers.append role
  . rw [Decoder.cursor, inside, filename]
    simp [Role.below]
  . rw [Place.items, role, Place.number, List.length_reverse, Place.inside, ← recovers.inside]
    exact { entered with }

theorem Recovers.read_data (data : IsData text) :
    (d.read text (lines.length + 1)).Recovers (lines ++ [text]) := by
  have role := Place.role_of_data (p := ⟨text, lines.reverse⟩) awaits data
  have expects := recovers.expectsName.trans awaits
  rw [read_of_data expects _ data, Decoder.data, tokens_trim, tokens_eq_commaTokens]
  apply recovers.append role
  . split
    . rw [cursor_foldl_token, Decoder.cursor, expects]
      rfl
    . rw [Decoder.cursor, warn, expects]
      rfl
  . rw [Place.items, role, Place.number, List.length_reverse, Place.inside, ← recovers.inside]
    dsimp only
    split
    . next fills => exact recovers.accounts.foldl_token fills _ _
    . exact recovers.accounts.stray _

end NoName

theorem Recovers.read (text : List Char) :
    (d.read text (lines.length + 1)).Recovers (lines ++ [text]) := by
  cases awaits : awaitsName lines.reverse with
  | true => exact recovers.read_name awaits text _
  | false =>
    rcases ignored_or_header_or_data text with ignored | ⟨s, header⟩ | data
    . exact recovers.read_ignored awaits ignored _
    . exact recovers.read_header awaits header
    . exact recovers.read_data awaits data

theorem Recovers.filename_finish : d.finish.filename = (names lines).getLast? := by
  have named : d.finish.filename = if d.expectsName then some [] else d.filename := by
    rw [finish]
    cases d.expectsName <;> split <;> rfl
  rw [named, recovers.expectsName, recovers.filename, names]
  split <;> simp

theorem Recovers.warnings_finish :
    d.finish.warnings.reverse =
      itemWarnings (items lines) ++ endWarnings (sectionBelow lines.reverse) := by
  rw [Decoder.warnings_finish, recovers.inside, recovers.accounts.warnings, endWarnings]
  split <;> simp

end Lines

theorem recovers_ofLines (raw : List (List Char)) :
    (ofLines raw).Recovers (raw.map dropReturn) := by
  -- From the end, as the role of a line depends on the lines above it.
  induction raw using List.reverseRecOn with
  | nil => exact recovers_start
  | append_singleton raw text ih =>
    have last : ofLines (raw ++ [text]) =
        (ofLines raw).read (dropReturn text) ((raw.map dropReturn).length + 1) := by
      rw [List.length_map, Nat.add_comm, ← line_eq_read]
      exact feed_append {} 1 raw [text]
    rw [last, List.map_append, List.map_singleton]
    exact ih.read (dropReturn text)

theorem memory_finish (d : Decoder) : d.finish.memory = d.memory := by
  rw [finish]
  cases d.expectsName <;> split <;> rfl

theorem vram_finish (d : Decoder) : d.finish.vram = d.vram := by
  rw [finish]
  cases d.expectsName <;> split <;> rfl

end Decoder

theorem warnings_decode (text : String) :
    (decode text).warnings =
      itemWarnings (items (textLines text)) ++
        endWarnings (sectionBelow (textLines text).reverse) :=
  (Decoder.recovers_ofLines _).warnings_finish

theorem countP_isOverflow_decode (s : Section) (text : String) :
    (decode text).warnings.countP (Warning.isOverflow s) =
      min 1 ((sectionBytes s (items (textLines text))).length - 256) := by
  have none : (endWarnings (sectionBelow (textLines text).reverse)).countP
      (Warning.isOverflow s) = 0 := by
    rw [endWarnings]
    split <;> rfl
  rw [warnings_decode, List.countP_append, none, Nat.add_zero, countP_isOverflow]

theorem decode_recovers (text : String) :
    let lines := textLines text
    let bytes := fun s => sectionBytes s (items lines)
    (decode text).image.memory.toList =
        (bytes .memory).take 256 ++ List.replicate (256 - (bytes .memory).length) 0 ∧
      (decode text).image.videoMemory.toList =
        (bytes .vram).take 256 ++ List.replicate (256 - (bytes .vram).length) 0 ∧
      (decode text).image.filename =
        ((names lines).getLast?.filter (· ≠ [])).map String.ofList ∧
      (decode text).warnings =
        itemWarnings (items lines) ++ endWarnings (sectionBelow lines.reverse) := by
  intro lines bytes
  have recovers : (Decoder.ofLines (Text.lines text.toList)).Recovers lines :=
    Decoder.recovers_ofLines _
  refine ⟨?_, ?_, ?_, warnings_decode text⟩
  . rw [decode, decodeChars, Decoder.image, Decoder.memory_finish, recovers.accounts.memory,
      Filling.toList_ofBytes]
  . rw [decode, decodeChars, Decoder.image, Decoder.vram_finish, recovers.accounts.vram,
      Filling.toList_ofBytes]
  . rw [decode, decodeChars, Decoder.image, recovers.filename_finish]

example : (decode "MEMORY\n1, x, 2\nVRAM\n3\nMEMORY\n4").warnings =
    [.illegalToken 2 "x", .outOfOrderSection 5 .memory .vram] := by
  decide +kernel

end LongForm
end ByteMachine
