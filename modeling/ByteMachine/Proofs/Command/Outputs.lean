import ByteMachine.Command.Job
import ByteMachine.Proofs.Assembly.Layout
import ByteMachine.Proofs.Command.Disk
import ByteMachine.Proofs.Image.LongForm.RoundTrip
import ByteMachine.Proofs.Image.ShortForm
import ByteMachine.Proofs.Text.Split

/-!
This module contains what the assembler command puts out: in each form the program can be read back
from its text, and a source that does not assemble leaves no output.
-/

namespace ByteMachine

namespace Command

def decimals (text : String) : List Nat :=
  (Text.words (fun c => !c.isDigit) text.toList).filterMap (Number.read? 10)

/--
The text holds these bytes and this name in one of the forms. Read as an image it gives the memory
that the bytes are loaded into and nothing more; an array has no name.
-/
def Carries (bytes : List UInt8) (name : Option String) (text : String) : Format → Prop
  | .array => decimals text = bytes.map UInt8.toNat
  | .state =>
    ∃ image, LongForm.decode text = { image, warnings := [] } ∧
      image.memory.toList = bytes ++ List.replicate (256 - bytes.length) 0 ∧
      image.videoMemory = .zero ∧
      image.filename = (name.filter (· ≠ "")).map
        (String.map fun c => if c = '\r' ∨ c = '\n' then ' ' else c)
  | .url =>
    ∃ query image, text = query ++ "\n" ∧ ShortForm.decode query = some image ∧
      image.memory.toList = bytes ++ List.replicate (256 - bytes.length) 0 ∧
      image.videoMemory = .zero ∧
      image.filename = name.filter (· ≠ "")

theorem decimals_formatArray (bytes : List UInt8) :
    decimals (formatArray bytes ++ "\n") = bytes.map UInt8.toNat := by
  have text : (formatArray bytes ++ "\n").toList =
      '[' :: (List.intercalate [',', ' '] (bytes.map fun b => Nat.toDigits 10 b.toNat) ++
        [']', '\n']) := by
    simp [formatArray, Function.comp_def]
  have numbers : ∀ word ∈ bytes.map fun b => Nat.toDigits 10 b.toNat,
      word ≠ [] ∧ ∀ c ∈ word, (!c.isDigit) = false := by
    simp only [List.forall_mem_map]
    intro b _
    refine ⟨Nat.toDigits_ne_nil, ?_⟩
    intro c mem
    rw [Number.isDigit_of_mem_toDigits mem, Bool.not_true]
  rw [decimals, text, Text.words_cons_of_separator (by decide),
    Text.words_intercalate_append (List.cons_ne_nil _ _) (List.all_eq_true.1 rfl) numbers
      (List.all_eq_true.1 rfl)]
  simp [List.filterMap_map, Number.read?_toDigits]

theorem toList_memory_ofProgram {bytes : List UInt8} (small : bytes.length ≤ 256) :
    (Image.ofProgram bytes).memory.toList = bytes ++ List.replicate (256 - bytes.length) 0 := by
  rw [Image.ofProgram, Memory.toList_ofBytes, List.take_of_length_le small]

theorem carries_render {bytes : List UInt8} (small : bytes.length ≤ 256) (name : Option String)
    (format : Format) : Carries bytes name (render format bytes name) format := by
  cases format with
  | array => exact decimals_formatArray bytes
  | state =>
    exact ⟨_, LongForm.decode_encode _, toList_memory_ofProgram small, rfl, rfl⟩
  | url =>
    exact ⟨_, _, rfl, ShortForm.decode_encode _, toList_memory_ofProgram small, rfl, rfl⟩

theorem length_of_assemble {source : String} {bytes : List UInt8}
    (assembled : Assembly.assemble source = .ok bytes) : bytes.length ≤ 256 := by
  rw [Assembly.assemble] at assembled
  cases laid : Assembly.Program.ofSource .standard source with
  | error error =>
    rw [laid] at assembled
    contradiction
  | ok program =>
    rw [laid] at assembled
    have laidOut := Assembly.Program.laidOut_of_ofSource laid
    rw [laidOut.length_of_link assembled, laidOut.size_eq]
    exact laidOut.size_le

theorem ofSource_of_assemble {source : String} {bytes : List UInt8}
    (assembled : Assembly.assemble source = .ok bytes) (options : Options) :
    ∃ stderr, Job.ofSource options source = .ok { options, bytes, stderr } := by
  rw [Assembly.assemble] at assembled
  cases laid : Assembly.Program.ofSource .standard source with
  | error error =>
    rw [laid] at assembled
    contradiction
  | ok program =>
    rw [laid] at assembled
    have linked : program.link = .ok bytes := assembled
    simp only [Job.ofSource, laid, Except.mapError, bind, Except.bind, linked]
    exact ⟨_, rfl⟩

theorem ofSource_of_not_assemble {source : String} {error : Assembly.Error}
    (refused : Assembly.assemble source = .error error) (options : Options) :
    ∃ report, Job.ofSource options source = .error report ∧
      report.status = 1 ∧ report.stdout = "" := by
  rw [Assembly.assemble] at refused
  cases laid : Assembly.Program.ofSource .standard source with
  | error error' =>
    simp only [Job.ofSource, laid, Except.mapError, bind, Except.bind]
    exact ⟨_, rfl, rfl, rfl⟩
  | ok program =>
    rw [laid] at refused
    have refused : program.link = .error error := refused
    simp only [Job.ofSource, laid, Except.mapError, bind, Except.bind, refused]
    exact ⟨_, rfl, rfl, rfl⟩

theorem ofInput_toUtf8 (options : Options) (source : String) :
    Job.ofInput options (.ok (Text.toUtf8 source)) = Job.ofSource options source := by
  simp only [Job.ofInput, Except.bind, Text.ofUtf8?_toUtf8]

def programName (options : Options) : Option String :=
  options.name.orElse fun _ => options.input.bind stem

def delivered (output : Option String) (disk : Disk) (text : String) : Nat × String × Disk :=
  match output with
  | none => (0, text, disk)
  | some path =>
    match disk.write path (Text.toUtf8 text) with
    | .ok disk => (0, "", disk)
    | .error _ => (1, "", disk)

def effect (done : Report × Disk) : Nat × String × Disk :=
  (done.1.status, done.1.stdout, done.2)

section Perform

variable {options : Options} {stdin : List UInt8} {disk : Disk} {source : String}
  (readable : (options.input.map disk.read).getD (.ok stdin) = .ok (Text.toUtf8 source))
include readable

theorem effect_of_assemble {bytes : List UInt8}
    (assembled : Assembly.assemble source = .ok bytes) :
    effect (perform options stdin disk) =
      delivered options.output disk (render options.emit bytes (programName options)) := by
  obtain ⟨stderr, made⟩ := ofSource_of_assemble assembled options
  simp only [perform, readable, ofInput_toUtf8, made]
  cases options.output with
  | none => rfl
  | some path =>
    simp only [delivered, Job.text, programName]
    generalize disk.write path _ = written
    cases written <;> rfl

theorem effect_of_not_assemble {error : Assembly.Error}
    (refused : Assembly.assemble source = .error error) :
    effect (perform options stdin disk) = (1, "", disk) := by
  obtain ⟨report, made, status, stdout⟩ := ofSource_of_not_assemble refused options
  simp only [perform, readable, ofInput_toUtf8, made, effect, status, stdout]

theorem effect_of_verbose (verbose : Bool) :
    effect (perform { options with verbose } stdin disk) = effect (perform options stdin disk) := by
  have readable' : (({ options with verbose } : Options).input.map disk.read).getD (.ok stdin) =
      .ok (Text.toUtf8 source) := readable
  cases assembled : Assembly.assemble source with
  | ok bytes =>
    rw [effect_of_assemble readable assembled, effect_of_assemble readable' assembled]
    rfl
  | error error =>
    rw [effect_of_not_assemble readable assembled, effect_of_not_assemble readable' assembled]

end Perform

theorem outputs_carry_program {options : Options} {stdin : List UInt8} {disk : Disk}
    {source : String}
    (readable : (options.input.map disk.read).getD (.ok stdin) = .ok (Text.toUtf8 source)) :
    let done := perform options stdin disk
    (∀ bytes, Assembly.assemble source = .ok bytes →
      ∃ text, Carries bytes (programName options) text options.emit ∧
        (options.output = none → done.1.status = 0 ∧ done.1.stdout = text ∧ done.2 = disk) ∧
        ∀ path, options.output = some path →
          done.1.stdout = "" ∧
            ∀ written, disk.write path (Text.toUtf8 text) = .ok written →
              done.1.status = 0 ∧ done.2 = written ∧
                done.2.read path = .ok (Text.toUtf8 text)) ∧
    (∀ error, Assembly.assemble source = .error error →
      done.1.status = 1 ∧ done.1.stdout = "" ∧ done.2 = disk) ∧
    ∀ verbose, effect (perform { options with verbose } stdin disk) = effect done := by
  intro done
  refine ⟨?_, ?_, effect_of_verbose readable⟩
  . intro bytes assembled
    have effect := effect_of_assemble readable assembled
    simp only [Command.effect] at effect
    refine ⟨_, carries_render (length_of_assemble assembled) _ _, ?_, ?_⟩
    . intro standard
      rw [standard] at effect
      simpa [delivered] using effect
    . intro path file
      rw [file] at effect
      refine ⟨?_, ?_⟩
      . simp only [delivered] at effect
        split at effect <;> exact congrArg (·.2.1) effect
      . intro written write
        simp only [delivered, write, Prod.mk.injEq] at effect
        obtain ⟨status, -, changed⟩ := effect
        refine ⟨status, changed, ?_⟩
        rw [changed]
        exact Disk.read_of_write write
  . intro error refused
    have effect := effect_of_not_assemble readable refused
    simpa [Command.effect] using effect

def shelf : Disk where
  entries :=
    [(["home"], .directory), (["home", "add.asm"], .file (Text.toUtf8 "mov num3, r1 ; three"))]
  workingDirectory := ["home"]

theorem outputs_carry_program_of_shelf :
    let options : Options :=
      { input := "add.asm", emit := .state, name := "one\ntwo", output := "out" }
    let done := perform options [] shelf
    (∃ text image, done.2.read "out" = .ok (Text.toUtf8 text) ∧
      LongForm.decode text = { image, warnings := [] } ∧
      image.memory.toList = [1, 3, 1] ++ List.replicate 253 0 ∧
      image.videoMemory = .zero ∧
      image.filename = some "one two") ∧
    done.1.status = 0 ∧ done.1.stdout = "" ∧
    effect (perform { options with verbose := true } [] shelf) = effect done := by
  intro options done
  have readable : (options.input.map shelf.read).getD (.ok []) =
      .ok (Text.toUtf8 "mov num3, r1 ; three") := by
    decide +kernel
  have assembled : Assembly.assemble "mov num3, r1 ; three" = .ok [1, 3, 1] := by
    decide +kernel
  have room : ∀ content, ∃ written, shelf.write "out" content = .ok written := by
    intro content
    exact ⟨_, rfl⟩
  have name : ("one\ntwo".map fun c => if c = '\r' ∨ c = '\n' then ' ' else c) = "one two" := by
    decide +kernel
  obtain ⟨output, -, same⟩ := outputs_carry_program readable
  obtain ⟨text, ⟨image, decoded, memory, video, filename⟩, -, files⟩ := output _ assembled
  obtain ⟨stdout, files⟩ := files "out" rfl
  obtain ⟨written, write⟩ := room (Text.toUtf8 text)
  obtain ⟨status, -, read⟩ := files written write
  refine ⟨⟨text, image, read, decoded, memory, video, ?_⟩, status, stdout, same true⟩
  rw [filename]
  exact congrArg some name

end Command
end ByteMachine
