import ByteMachine.Assembly.Operand
import ByteMachine.Text.Blank
import ByteMachine.Text.Split

/-!
This module contains the lines of a source text. A line declares a label, or it is an instruction,
or it is blank; what follows a semicolon is a comment.
-/

namespace ByteMachine
namespace Assembly

inductive Line where
  | blank
  /-- Declares a label; the name is without its colon. -/
  | label (name : String)
  /-- A mnemonic in upper case and its operands. -/
  | instruction (mnemonic : String) (operands : List Operand)
deriving DecidableEq

def isSeparator (c : Char) : Bool :=
  Text.isBlank c || c = ','

def tokens (text : List Char) : List (List Char) :=
  Text.words isSeparator (Text.cut ';' text).1

def parseTokens : List (List Char) → Except Problem Line
  | [] => .ok .blank
  | [':' :: name] => (parseLabel (':' :: name) name).map .label
  | (':' :: _) :: extra :: _ => .error (.malformedOperand (String.ofList extra))
  | mnemonic :: operands => do
    let operands ← operands.mapM parseOperand
    return .instruction (String.ofList (mnemonic.map Char.toUpper)) operands

def parseLine (text : List Char) : Except Problem Line :=
  parseTokens (tokens text)

end Assembly
end ByteMachine
