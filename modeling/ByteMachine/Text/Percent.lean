import ByteMachine.Text.Number
import ByteMachine.Text.Utf8

/-!
This module contains percent coding: letters, digits and `-_.~` stand for themselves, every other
byte of a text is written as a percent sign and two hexadecimal digits.
-/

namespace ByteMachine
namespace Percent

def isUnreserved (b : UInt8) : Bool :=
  let c := Char.ofNat b.toNat
  c.isAlphanum || c = '-' || c = '_' || c = '.' || c = '~'

def encodeByte (b : UInt8) : List Char :=
  if isUnreserved b then [Char.ofNat b.toNat] else '%' :: Number.hexPair b

def encode (text : List Char) : List Char :=
  (Text.toUtf8 (String.ofList text)).flatMap encodeByte

def hexValue? (b : UInt8) : Option Nat :=
  Number.digit? 16 (Char.ofNat b.toNat)

def decodeBytes : List UInt8 → Option (List UInt8)
  | [] => some []
  | b :: rest =>
    if b = 0x25 then
      match rest with
      | high :: low :: rest => do
        let byte := UInt8.ofNat ((← hexValue? high) * 16 + (← hexValue? low))
        return byte :: (← decodeBytes rest)
      | _ => none
    else
      (decodeBytes rest).map ((if b = 0x2B then 0x20 else b) :: ·)

def decode (text : List Char) : Option String := do
  Text.ofUtf8? (← decodeBytes (Text.toUtf8 (String.ofList text)))

end Percent
end ByteMachine
