import ByteMachine.Assembly.Program
import ByteMachine.Disassembly
import ByteMachine.Engine.Operation
import ByteMachine.Image.LongForm
import ByteMachine.Image.ShortForm

/-!
This module contains the logic to save an engine's memory as text and to bring programs and saved
texts into an engine. What cannot be read leaves the engine as it is.
-/

namespace ByteMachine
namespace Engine

inductive Refusal where
  | noRegister (index : UInt8)
  | assembly (error : Assembly.Error)
  | malformedQuery
deriving DecidableEq

def Refusal.message : Refusal → String
  | .noRegister index => s!"no register R{index.toNat}"
  | .assembly error => error.message
  | .malformedQuery => "malformed state query"

structure Import where
  filename : Option String
  warnings : List LongForm.Warning := []
deriving DecidableEq

def refuse (e : Engine) (refusal : Refusal) : Reaction (Except Refusal α) where
  result := .error refusal
  engine := e

def setRegisterAt (index value : UInt8) (e : Engine) : Reaction (Except Refusal Unit) :=
  match Register.ofByte? index with
  | some r => (e.setRegister r value).map .ok
  | none => e.refuse (.noRegister index)

def assemble (source : String) (e : Engine) : Reaction (Except Refusal Nat) :=
  let assembled : Reaction (Except Assembly.Error (List UInt8)) :=
    { result := Assembly.assemble source, engine := e, log := Assembly.assembleLog source }
  match assembled.result with
  | .ok program => assembled.andThen fun e => (e.load program).map .ok
  | .error error => e.refuse (.assembly error)

def exportLong (name : Option String) (e : Engine) : String :=
  LongForm.encode (e.image name)

def exportShort (name : Option String) (e : Engine) : String :=
  ShortForm.encode (e.image name)

def importLong (text : String) (e : Engine) : Reaction Import :=
  let decoding := LongForm.decode text
  let loaded := e.loadImage decoding.image
  { loaded with
    result := ⟨decoding.image.filename, decoding.warnings⟩
    log := decoding.log ++ loaded.log }

def importShort (query : String) (e : Engine) : Reaction (Except Refusal Import) :=
  let log := ShortForm.log query
  match ShortForm.decode query with
  | some image =>
    let loaded := e.loadImage image
    { loaded with result := .ok { filename := image.filename }, log := log ++ loaded.log }
  | none => { e.refuse .malformedQuery with log }

def listing (start : UInt8) (count : Nat) (e : Engine) : List Disassembly.Row :=
  Disassembly.listing e.instructions e.machine.memory start.toNat count

def disassemble (host : Host) (start : UInt8) (count : Nat) (e : Engine) :
    Except Crash (List Disassembly.Row) :=
  Disassembly.disassemble host e.instructions e.machine.memory start count

end Engine
end ByteMachine
