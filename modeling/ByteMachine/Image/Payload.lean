/-!
This module contains payloads: bytes packed six bits to a symbol, three bytes to a group of four
symbols. Zeros at the end are left out, and dots fill up the last group.
-/

namespace ByteMachine
namespace Payload

def symbol (value : UInt8) : Char :=
  if value < 26 then Char.ofNat (65 + value.toNat)
  else if value < 52 then Char.ofNat (71 + value.toNat)
  else if value < 62 then Char.ofNat (value.toNat - 4)
  else if value = 62 then '-'
  else '_'

def value? (c : Char) : Option UInt8 :=
  if 'A' ≤ c ∧ c ≤ 'Z' then some (UInt8.ofNat (c.toNat - 65))
  else if 'a' ≤ c ∧ c ≤ 'z' then some (UInt8.ofNat (c.toNat - 71))
  else if '0' ≤ c ∧ c ≤ '9' then some (UInt8.ofNat (c.toNat + 4))
  else if c = '-' then some 62
  else if c = '_' then some 63
  else none

def symbols (a b c : UInt8) : List Char :=
  [symbol (a >>> 2), symbol ((a &&& 0x03) <<< 4 ||| b >>> 4),
    symbol ((b &&& 0x0F) <<< 2 ||| c >>> 6), symbol (c &&& 0x3F)]

def unpack (a b c d : UInt8) : List UInt8 :=
  [a <<< 2 ||| b >>> 4, b <<< 4 ||| c >>> 2, c <<< 6 ||| d]

def trimZeros (bytes : List UInt8) : List UInt8 :=
  (bytes.reverse.dropWhile (· = 0)).reverse

def pack : List UInt8 → List Char
  | [] => []
  | [a] => (symbols a 0 0).take 2 ++ ['.', '.']
  | [a, b] => (symbols a b 0).take 3 ++ ['.']
  | a :: b :: c :: rest => symbols a b c ++ pack rest

def encode (bytes : List UInt8) : List Char :=
  pack (trimZeros bytes)

def group? (a b c d : Char) : Option (List UInt8) :=
  return unpack (← value? a) (← value? b) (← value? c) (← value? d)

/--
Unpacks the last group, in which one or two dots may stand for missing symbols.
-/
def lastGroup? (a b c d : Char) : Option (List UInt8) :=
  if d ≠ '.' then
    group? a b c d
  else if c ≠ '.' then
    return (unpack (← value? a) (← value? b) (← value? c) 0).take 2
  else
    return (unpack (← value? a) (← value? b) 0 0).take 1

def unpack? : List Char → Option (List UInt8)
  | [] => some []
  | [a, b, c, d] => lastGroup? a b c d
  | a :: b :: c :: d :: rest => return (← group? a b c d) ++ (← unpack? rest)
  | _ => none

def decode (text : List Char) : Option (List UInt8) :=
  (unpack? text).filter (·.length ≤ 256)

end Payload
end ByteMachine
