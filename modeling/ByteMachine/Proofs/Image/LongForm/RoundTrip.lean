import ByteMachine.Proofs.Image.LongForm.Reading
import ByteMachine.Proofs.Image.LongForm.Rows

/-!
This module contains the round trip of the long form: decoding what was encoded gives the image
back, up to the line breaks in its name, and no warnings.
-/

namespace ByteMachine
namespace LongForm

namespace Decoder

theorem foldl_token_numeral {d : Decoder} {bytes : List UInt8}
    (room : bytes.length + d.current.bytes.length ≤ 256) (number : Nat) :
    (bytes.map numeral).foldl (token number) d = d.fill bytes := by
  apply foldl_token_of_room _ room
  rw [List.forall₂_map_left_iff, List.forall₂_same]
  intro b _
  exact byte?_numeral b

theorem line_rowText {d : Decoder} (fills : d.Fills) {bytes : List UInt8}
    (room : bytes.length + d.current.bytes.length ≤ 256) (number : Nat) :
    d.line (rowText bytes) number = d.fill bytes := by
  rw [line, dropReturn_of_unbroken (unbroken_rowText bytes)]
  simp only [fills.1, Bool.false_eq_true, if_false]
  cases bytes with
  | nil => exact (fill_nil d).symm
  | cons b bytes =>
    -- the line begins with the zero of its first byte, so it is neither a comment nor a header
    have first : (Text.trim (rowText (b :: bytes))).head? = some '0' :=
      Text.head?_trim (by decide) _
    have other : ∀ text : List Char, text.head? ≠ some '0' →
        Text.trim (rowText (b :: bytes)) ≠ text := by
      rintro text differs rfl
      exact differs first
    rw [trimmed, if_neg, if_neg (other _ (by decide)), if_neg (other _ (by decide)),
      if_neg (other _ (by decide)), data, if_pos fills.2, tokens_trim, tokens_rowText,
      foldl_token_numeral room]
    rintro (none | comment)
    . exact other [] (by decide) none
    . rw [first] at comment
      revert comment
      decide

theorem feed_rowText {d : Decoder} (fills : d.Fills) {rows : List (List UInt8)}
    (room : rows.flatten.length + d.current.bytes.length ≤ 256) (number : Nat) :
    d.feed number (rows.map rowText) = d.fill rows.flatten := by
  induction rows generalizing d number with
  | nil => exact (fill_nil d).symm
  | cons row rows ih =>
    rw [List.flatten_cons, List.length_append] at room
    rw [List.map_cons, feed_cons, line_rowText fills (by omega), ih (fills.fill row),
      ← fill_append, List.flatten_cons]
    rw [length_current_fill]
    omega

theorem line_header {d : Decoder} (expects : d.expectsName = false) {next : Section}
    {header : String} (known : next.header = some header) (number : Nat) :
    d.line header.toList number =
      { d.enter number next with expectsName := decide (next = .filename) } := by
  have plain : Unbroken header.toList ∧ Text.trim header.toList = header.toList := by
    cases next <;> cases known <;> decide
  rw [line_eq_read, dropReturn_of_unbroken plain.1]
  exact read_of_header expects number ⟨header, known, plain.2⟩

theorem feed_section {d : Decoder} (expects : d.expectsName = false) {next : Section}
    (fillable : next = .memory ∨ next = .vram) (order : d.inside.mayPrecede next)
    (empty : { d with inside := next }.current = {}) {header : String}
    (known : next.header = some header) (memory : Memory) (number : Nat) :
    d.feed number (header.toList :: (rows memory.toList).map rowText) =
      { d with inside := next }.fill memory.toList := by
  have entered : d.line header.toList number = { d with inside := next } := by
    have other : next ≠ .filename := by
      rcases fillable with rfl | rfl <;> decide
    rw [line_header expects known, enter, if_pos order, decide_eq_false other, ← expects]
  have fills : { d with inside := next }.Fills := ⟨expects, fillable⟩
  rw [feed_cons, entered, feed_rowText fills, flatten_rows]
  rw [flatten_rows, empty, Memory.length_toList]
  decide

end Decoder

def keptName (image : Image) : Option (List Char) :=
  image.name?.map fun name => flatten name.toList

def nameLines (name? : Option (List Char)) : List (List Char) :=
  (name?.map fun name => ["FILENAME".toList, name]).getD []

def sectionLines (header : String) (memory : Memory) : List (List Char) :=
  header.toList :: (rows memory.toList).map rowText

def encodeLines (image : Image) : List (List Char) :=
  banner :: nameLines (keptName image) ++ sectionLines "MEMORY" image.memory ++
    if image.videoMemory = .zero then [] else sectionLines "VRAM" image.videoMemory

theorem encodeSection_eq (header : String) (memory : Memory) :
    encodeSection header memory = (sectionLines header memory).flatMap line := by
  rw [encodeSection, encodeRows_eq, sectionLines, List.flatMap_cons]

theorem encodeChars_eq (image : Image) : encodeChars image = (encodeLines image).flatMap line := by
  have name : (image.name?.map encodeName).getD [] = (nameLines (keptName image)).flatMap line := by
    rw [keptName]
    cases image.name? with
    | none => rfl
    | some name => simp [nameLines, encodeName]
  rw [encodeChars, encodeLines, name, encodeSection_eq, encodeSection_eq]
  split <;> simp

theorem unbroken_of_mem_sectionLines {header : String} (plain : Unbroken header.toList)
    {memory : Memory} {text : List Char} (mem : text ∈ sectionLines header memory) :
    Unbroken text := by
  rw [sectionLines, List.mem_cons, List.mem_map] at mem
  rcases mem with rfl | ⟨row, -, rfl⟩
  . exact plain
  . exact unbroken_rowText row

theorem unbroken_of_mem_encodeLines {image : Image} {text : List Char}
    (mem : text ∈ encodeLines image) : Unbroken text := by
  rw [encodeLines, List.mem_append, List.mem_append, List.mem_cons] at mem
  rcases mem with ((rfl | mem) | mem) | mem
  . decide
  . rw [nameLines, keptName] at mem
    cases named : image.name? with
    | none =>
      rw [named] at mem
      cases mem
    | some name =>
      simp only [named, Option.map_some, Option.getD_some, List.mem_cons, List.not_mem_nil,
        or_false] at mem
      rcases mem with rfl | rfl
      . decide
      . exact unbroken_flatten name.toList
  . exact unbroken_of_mem_sectionLines (by decide) mem
  . split at mem
    . cases mem
    . exact unbroken_of_mem_sectionLines (by decide) mem

theorem lines_encode (image : Image) : Text.lines (encodeChars image) = encodeLines image := by
  rw [encodeChars_eq]
  exact lines_flatMap_line fun _ => unbroken_of_mem_encodeLines

namespace Decoder

def named (name? : Option (List Char)) : Decoder where
  inside := if name?.isSome then .filename else .start
  filename := name?

theorem feed_nameLines {name? : Option (List Char)} (unbroken : ∀ name ∈ name?, Unbroken name) :
    feed {} 1 (banner :: nameLines name?) = named name? := by
  have commented : line {} banner 1 = {} := rfl
  rw [feed_cons, commented]
  cases name? with
  | none => rfl
  | some name =>
    have header : Section.filename.header = some "FILENAME" := rfl
    have verbatim : dropReturn name = name := dropReturn_of_unbroken (unbroken name rfl)
    rw [nameLines, Option.map_some, Option.getD_some, feed_cons, line_header rfl header, feed_cons,
      line, verbatim]
    rfl

def settled (image : Image) : Decoder where
  inside := if image.videoMemory = .zero then .memory else .vram
  filename := keptName image
  memory := { bytes := image.memory.toList.reverse }
  vram := { bytes := if image.videoMemory = .zero then [] else image.videoMemory.toList.reverse }

theorem ofLines_encodeLines (image : Image) : ofLines (encodeLines image) = settled image := by
  have unbroken : ∀ name ∈ keptName image, Unbroken name := by
    intro name kept
    obtain ⟨name, -, rfl⟩ := Option.map_eq_some_iff.mp kept
    exact unbroken_flatten name.toList
  have start : ofLines (encodeLines image) = feed {} 1 (encodeLines image) := rfl
  have order : (named (keptName image)).inside.mayPrecede .memory := by
    rw [named]
    split <;> rfl
  rw [start, encodeLines, feed_append, feed_append, feed_nameLines unbroken, sectionLines,
    feed_section rfl (.inl rfl) order rfl rfl]
  rw [settled]
  split
  . simp [feed, fill, named]
  . rw [sectionLines, feed_section rfl (.inr rfl) rfl rfl rfl]
    simp [fill, named]

end Decoder

/--
An image as the long form keeps it: an empty name is none, and each character that would end a line
is a space.
-/
def kept (image : Image) : Image :=
  { image with
    filename := image.name?.map (String.map fun c => if c = '\r' ∨ c = '\n' then ' ' else c) }

theorem filename_kept (image : Image) :
    (kept image).filename = (keptName image).map String.ofList := by
  simp only [kept, keptName, Option.map_map]
  congr 1
  funext name
  rw [Function.comp_apply, ← String.toList_inj, String.toList_ofList, String.toList_map]
  rfl

theorem ne_nil_of_keptName {image : Image} {name : List Char} (h : keptName image = some name) :
    name ≠ [] := by
  rw [keptName, Option.map_eq_some_iff] at h
  obtain ⟨original, named, rfl⟩ := h
  have := (Option.filter_eq_some_iff.mp named).2
  simpa [flatten] using this

theorem image_settled (image : Image) : (Decoder.settled image).image = kept image := by
  have name : (keptName image).filter (· ≠ []) = keptName image := by
    cases named : keptName image with
    | none => rfl
    | some name => rw [Option.filter_some, if_pos (by simpa using ne_nil_of_keptName named)]
  have filename := filename_kept image
  simp only [kept] at filename
  simp only [Decoder.settled, Decoder.image, kept, Image.mk.injEq]
  refine ⟨?_, ?_, ?_⟩
  . rw [name, filename]
  . rw [List.reverse_reverse, Memory.ofBytes_toList]
  . split
    . next zero =>
      rw [zero]
      exact Memory.ofBytes_nil
    . rw [List.reverse_reverse, Memory.ofBytes_toList]

theorem keptName_kept (image : Image) : keptName (kept image) = keptName image := by
  rw [keptName, Image.name?, filename_kept]
  cases named : keptName image with
  | none => rfl
  | some name =>
    have unbroken : flatten name = name := by
      obtain ⟨original, -, rfl⟩ := Option.map_eq_some_iff.mp named
      exact flatten_eq_self (unbroken_flatten original.toList)
    have := ne_nil_of_keptName named
    simp [Option.filter, this, unbroken]

theorem finish_settled (image : Image) :
    (Decoder.settled image).finish = Decoder.settled image := by
  rw [Decoder.finish, Decoder.settled]
  split <;> rfl

theorem decode_encode (image : Image) : decode (encode image) = ⟨kept image, []⟩ := by
  rw [decode, encode, String.toList_ofList, decodeChars, lines_encode,
    Decoder.ofLines_encodeLines, finish_settled, image_settled]
  rfl

theorem encode_kept (image : Image) : encode (kept image) = encode image := by
  rw [encode, encodeChars_eq, encodeLines, keptName_kept, encode, encodeChars_eq, encodeLines]
  rfl

end LongForm
end ByteMachine
