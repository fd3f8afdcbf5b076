import ByteMachine.Image.ShortForm
import ByteMachine.Proofs.Image.Payload
import ByteMachine.Proofs.Text.Percent

/-!
This module contains the round trip of the short form: decoding what was encoded gives back all of
an image but its video memory.
-/

namespace ByteMachine
namespace ShortForm

theorem payload_ne_ampersand (bytes : List UInt8) : ∀ c ∈ Payload.encode bytes, c ≠ '&' :=
  Payload.ne_of_mem_pack (by decide) rfl

theorem decode_payload (memory : Memory) :
    Payload.decode (Payload.encode memory.toList) = some (Payload.trimZeros memory.toList) := by
  apply Payload.decode_encode
  have := Payload.length_trimZeros_le memory.toList
  rw [Memory.length_toList] at this
  exact this

def encodeWords (image : Image) : List (List Char) :=
  (image.name?.map fun name => ['f', 'n', '='] ++ Percent.encode name.toList).toList ++
    [['p', '='] ++ Payload.encode image.memory.toList]

theorem ampersand_not_in_parameter {key value : List Char}
    (plain : (key.all fun c => decide (c ≠ '&')) = true) (safe : ∀ c ∈ value, c ≠ '&') :
    ∀ c ∈ key ++ value, decide (c = '&') = false := by
  intro c mem
  rw [List.mem_append] at mem
  rcases mem with mem | mem
  . exact decide_eq_false (of_decide_eq_true (List.all_eq_true.1 plain c mem))
  . exact decide_eq_false (safe c mem)

theorem words_encodeChars (image : Image) :
    Text.words (· = '&') (encodeChars image) = encodeWords image := by
  have payload : ∀ c ∈ ['p', '='] ++ Payload.encode image.memory.toList,
      decide (c = '&') = false := by
    apply ampersand_not_in_parameter rfl
    exact payload_ne_ampersand _
  rw [Text.words, encodeChars, encodeWords]
  cases image.name? with
  | none =>
    have whole := Text.split_of_forall payload
    simpa using congrArg (List.filter (· ≠ [])) whole
  | some name =>
    have named : ∀ c ∈ ['f', 'n', '='] ++ Percent.encode name.toList,
        decide (c = '&') = false := by
      apply ampersand_not_in_parameter rfl
      intro c mem
      exact (Percent.ascii_of_mem_encode c mem).2
    have separates : decide ('&' = '&') = true := rfl
    have split := Text.split_append_cons named separates
      (['p', '='] ++ Payload.encode image.memory.toList)
    rw [Text.split_of_forall payload] at split
    simpa using congrArg (List.filter (· ≠ [])) split

namespace Parameters

theorem read_name {p : Parameters} (ok : p.failed = false) (name : String) :
    p.read (['f', 'n', '='] ++ Percent.encode name.toList) = { p with filename := some name } := by
  have cut : Text.cut '=' (['f', 'n', '='] ++ Percent.encode name.toList) =
      (['f', 'n'], some (Percent.encode name.toList)) := rfl
  have other : ['f', 'n'] ≠ ['p'] := by decide
  rw [read, if_neg (by simp [ok]), cut]
  simp only [Option.getD_some, if_neg other, if_true, Percent.decode_encode]

theorem read_payload {p : Parameters} (ok : p.failed = false) (payload : List Char) :
    p.read (['p', '='] ++ payload) = { p with payload := some payload } := by
  have cut : Text.cut '=' (['p', '='] ++ payload) = (['p'], some payload) := rfl
  rw [read, if_neg (by simp [ok]), cut]
  simp only [Option.getD_some, if_true]

theorem image?_eq_some_iff {p : Parameters} {image : Image} :
    p.image? = some image ↔
      p.failed = false ∧ ∃ payload bytes, p.payload = some payload ∧
        Payload.decode payload = some bytes ∧
        image = { Image.ofProgram bytes with filename := p.filename.filter (· ≠ "") } := by
  unfold image?
  cases p.failed with
  | true => simp
  | false =>
    simp only [Bool.false_eq_true, if_false, Option.pure_def, Option.bind_eq_bind,
      Option.bind_eq_some_iff, Option.some.injEq, true_and]
    simp only [exists_and_left, eq_comm]

end Parameters

theorem foldl_read_encodeWords (image : Image) :
    (encodeWords image).foldl Parameters.read {} =
      { payload := some (Payload.encode image.memory.toList), filename := image.name? } := by
  rw [encodeWords, List.foldl_append]
  cases image.name? with
  | none => exact Parameters.read_payload (p := {}) rfl _
  | some name =>
    have named := Parameters.read_name (p := {}) rfl name
    simp only [Option.map_some, Option.toList_some, List.foldl_cons, List.foldl_nil, named]
    exact Parameters.read_payload (p := { filename := some name }) rfl _

theorem parameters_encodeChars (image : Image) (mark : List Char)
    (optional : mark = [] ∨ mark = ['?']) :
    parameters (mark ++ encodeChars image) =
      { payload := some (Payload.encode image.memory.toList), filename := image.name? } := by
  have first : (encodeChars image).head? ≠ some '?' := by
    rw [encodeChars]
    split <;> simp
  rw [← foldl_read_encodeWords, ← words_encodeChars]
  rcases optional with rfl | rfl
  . rw [List.nil_append, parameters, if_neg first]
  . rfl

/--
An image as the short form keeps it: the video memory is zero, and an empty name is none.
-/
def kept (image : Image) : Image where
  filename := image.name?
  memory := image.memory

theorem name?_filter (image : Image) : image.name?.filter (· ≠ "") = image.name? := by
  rw [Image.name?, Option.filter_filter]
  simp

theorem image?_parameters (image : Image) :
    Parameters.image?
        { payload := some (Payload.encode image.memory.toList), filename := image.name? } =
      some (kept image) := by
  rw [Parameters.image?_eq_some_iff]
  refine ⟨rfl, _, _, rfl, decode_payload image.memory, ?_⟩
  rw [name?_filter, Image.ofProgram, Payload.ofBytes_trimZeros, Memory.ofBytes_toList, kept]

theorem decode_mark_encode {mark : String} (optional : mark = "" ∨ mark = "?") (image : Image) :
    decode (mark ++ encode image) = some (kept image) := by
  have optional : mark.toList = [] ∨ mark.toList = ['?'] := by
    rcases optional with rfl | rfl
    . exact .inl rfl
    . exact .inr rfl
  rw [decode, encode, String.toList_append, String.toList_ofList,
    parameters_encodeChars image _ optional, image?_parameters]

theorem decode_encode (image : Image) : decode (encode image) = some (kept image) := by
  rw [← decode_mark_encode (.inl rfl) image, String.empty_append]

theorem encode_kept (image : Image) : encode (kept image) = encode image := by
  have name : (kept image).name? = image.name? := name?_filter image
  rw [encode, encodeChars, name]
  rfl

theorem kept_of_decode {query : String} {image : Image} (decoded : decode query = some image) :
    kept image = image := by
  obtain ⟨-, payload, bytes, -, -, rfl⟩ := Parameters.image?_eq_some_iff.1 decoded
  rw [kept, Image.name?, Option.filter_filter]
  simp [Image.ofProgram]

theorem decode_encode_eq_some_kept (image : Image) :
    decode (encode image) = some (kept image) ∧
    decode ("?" ++ encode image) = some (kept image) ∧
    ∀ query decoded, decode query = some decoded → decode (encode decoded) = some decoded := by
  refine ⟨decode_encode image, decode_mark_encode (.inr rfl) image, ?_⟩
  intro query result decoded
  rw [decode_encode, kept_of_decode decoded]

def spelledOut : String :=
  "?x&p=AQIDAAAA&fn=caf%C3%A9+%26%3D"

theorem decode_encode_spelledOut :
    let image : Image := { filename := some "café &=", memory := .ofBytes [1, 2, 3, 0, 0, 0] }
    decode spelledOut = some image ∧ decode (encode image) = some image := by
  intro image
  have read : parameters spelledOut.toList =
      { payload := some "AQIDAAAA".toList
        filename := some "café &="
        ignored := [['x']] } := by
    decide +kernel
  have decoded : decode spelledOut = some image := by
    rw [decode, read, Parameters.image?_eq_some_iff]
    exact ⟨rfl, _, [1, 2, 3, 0, 0, 0], rfl, by decide, rfl⟩
  exact ⟨decoded, (decode_encode_eq_some_kept {}).2.2 spelledOut _ decoded⟩

end ShortForm
end ByteMachine
