import ByteMachine.Assembly.Encoding
import ByteMachine.Assembly.Line
import ByteMachine.Assembly.SymbolTable
import ByteMachine.Log

/-!
This module contains the assembler. It first encodes a source line by line and lays the
instructions out one after another; the bytes that are to hold the addresses of labels are filled
in when the program is linked.
-/

namespace ByteMachine
namespace Assembly

structure Chunk where
  line : Nat
  offset : Nat
  bytes : List UInt8
deriving DecidableEq

def Chunk.stop (c : Chunk) : Nat :=
  c.offset + c.bytes.length

/--
A byte that is to hold the address of a label.
-/
structure Fixup where
  line : Nat
  offset : Nat
  label : String
deriving DecidableEq

structure Program where
  chunks : List Chunk := []
  symbols : SymbolTable := {}
  fixups : List Fixup := []
deriving DecidableEq

namespace Program

def size (p : Program) : Nat :=
  (p.chunks.getLast?.map Chunk.stop).getD 0

end Program

structure Draft where
  program : Program := {}
  offset : Nat := 0

namespace Draft

def append (d : Draft) (line : Nat) (encoding : Encoding) : Except Problem Draft :=
  let chunk : Chunk := ⟨line, d.offset, encoding.bytes⟩
  if chunk.stop ≤ 256 then
    let fixups := encoding.references.map fun (index, label) => ⟨line, d.offset + index, label⟩
    .ok
      { offset := chunk.stop
        program :=
          { d.program with
            chunks := d.program.chunks ++ [chunk]
            fixups := d.program.fixups ++ fixups } }
  else
    .error (.programTooLarge chunk.stop)

def addLine (set : InstructionSet) (d : Draft) (line : Nat) (text : List Char) :
    Except Problem Draft := do
  match ← parseLine text with
  | .blank => return d
  | .label name =>
    let symbols ← d.program.symbols.define name ⟨d.offset, line⟩
    return { d with program := { d.program with symbols } }
  | .instruction mnemonic operands => d.append line (← encode set mnemonic operands)

def addLines (set : InstructionSet) (d : Draft) : List (List Char × Nat) → Except Error Draft
  | [] => .ok d
  | (text, line) :: rest => do
    let d ← onLine line (d.addLine set line text)
    d.addLines set rest

end Draft

namespace Program

def ofSource (set : InstructionSet) (source : String) : Except Error Program :=
  (Draft.addLines set {} ((Text.lines source.toList).zipIdx 1)).map Draft.program

def bytes (p : Program) : List UInt8 :=
  p.chunks.flatMap Chunk.bytes

def resolve (symbols : SymbolTable) (label : String) : Except Problem UInt8 :=
  match symbols.get? label with
  | none => .error (.labelNotFound label)
  | some symbol =>
    match Number.toByte? symbol.offset with
    | some address => .ok address
    | none => .error (.programTooLarge (symbol.offset + 1))

def patch (symbols : SymbolTable) (bytes : List UInt8) : List Fixup → Except Error (List UInt8)
  | [] => .ok bytes
  | fixup :: rest => do
    let address ← onLine fixup.line (resolve symbols fixup.label)
    patch symbols (bytes.set fixup.offset address) rest

def link (p : Program) : Except Error (List UInt8) :=
  patch p.symbols p.bytes p.fixups

def linkLog (p : Program) : List Log.Record :=
  match p.link with
  | .error _ => []
  | .ok bytes =>
    [⟨.debug, s!"linked {bytes.length} bytes, {p.symbols.size} labels, {p.fixups.length} fixups"⟩]

end Program

def assemble (source : String) : Except Error (List UInt8) := do
  (← Program.ofSource .standard source).link

def assembleLog (source : String) : List Log.Record :=
  match Program.ofSource .standard source with
  | .error _ => []
  | .ok program => program.linkLog

end Assembly
end ByteMachine
