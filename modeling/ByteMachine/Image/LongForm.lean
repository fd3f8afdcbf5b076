import ByteMachine.Image
import ByteMachine.Image.Section
import ByteMachine.Log
import ByteMachine.Text.Blank
import ByteMachine.Text.Number
import ByteMachine.Text.Split

/-!
This module contains the long form of an image: a text with a section of bytes for each memory.

```
# octet machine state
FILENAME
demo
MEMORY
0x01, 0x00, 0x49,
VRAM
0x00, 0x07,
```

Lines that start with `#` are comments. The line after `FILENAME` is the name, whatever it holds.
Bytes are separated by commas and written in decimal, or in hexadecimal after `0x`. Decoding never
fails: it warns of what it cannot use and keeps the rest.
-/

namespace ByteMachine
namespace LongForm

def banner : List Char :=
  "# octet machine state".toList

def line (text : List Char) : List Char :=
  text ++ ['\n']

def encodeRow (bytes : List UInt8) : List Char :=
  line (bytes.flatMap fun b => '0' :: 'x' :: Number.hexPair b ++ [',', ' '])

def encodeRows (bytes : List UInt8) : List Char :=
  (List.range ((bytes.length + 15) / 16)).flatMap fun i =>
    encodeRow ((bytes.drop (16 * i)).take 16)

def encodeSection (header : String) (memory : Memory) : List Char :=
  line header.toList ++ encodeRows memory.toList

def flatten (name : List Char) : List Char :=
  name.map fun c => if c = '\r' ∨ c = '\n' then ' ' else c

def encodeName (name : String) : List Char :=
  line "FILENAME".toList ++ line (flatten name.toList)

def encodeChars (image : Image) : List Char :=
  line banner ++ (image.name?.map encodeName).getD [] ++
    encodeSection "MEMORY" image.memory ++
    if image.videoMemory = .zero then [] else encodeSection "VRAM" image.videoMemory

def encode (image : Image) : String :=
  String.ofList (encodeChars image)

inductive Warning where
  /-- A section that may not come after the one before it; at the end of the text on line 0. -/
  | outOfOrderSection (line : Nat) (found after : Section)
  | illegalToken (line : Nat) (token : String)
  | byteOutsideSection (line : Nat)
  | sectionOverflow (line : Nat) (inside : Section)
deriving DecidableEq

def Warning.message : Warning → String
  | .outOfOrderSection line found after =>
    s!"line {line}: {found.label} may not follow {after.label}"
  | .illegalToken line token => s!"line {line}: illegal byte `" ++ token ++ "`"
  | .byteOutsideSection line => s!"line {line}: byte data outside a memory section"
  | .sectionOverflow line inside => s!"line {line}: {inside.label} holds more than 256 bytes"

structure Filling where
  /-- The bytes so far, the latest first; never more than 256. -/
  bytes : List UInt8 := []
  overflowed : Bool := false
deriving DecidableEq

def Filling.push (f : Filling) (byte : UInt8) : Filling × Bool :=
  if f.bytes.length < 256 then
    ({ f with bytes := byte :: f.bytes }, false)
  else
    ({ f with overflowed := true }, !f.overflowed)

structure Decoder where
  inside : Section := .start
  expectsName : Bool := false
  filename : Option (List Char) := none
  memory : Filling := {}
  vram : Filling := {}
  /-- The warnings so far, the latest first. -/
  warnings : List Warning := []
deriving DecidableEq

namespace Decoder

def warn (d : Decoder) (warning : Warning) : Decoder :=
  { d with warnings := warning :: d.warnings }

def enter (d : Decoder) (number : Nat) (next : Section) : Decoder :=
  let checked :=
    if d.inside.mayPrecede next then d else d.warn (.outOfOrderSection number next d.inside)
  { checked with inside := next }

def push (d : Decoder) (number : Nat) (byte : UInt8) : Decoder :=
  let (filling, first) := (if d.inside = .vram then d.vram else d.memory).push byte
  let filled :=
    if d.inside = .vram then { d with vram := filling } else { d with memory := filling }
  if first then filled.warn (.sectionOverflow number d.inside) else filled

def token (number : Nat) (d : Decoder) (text : List Char) : Decoder :=
  match Number.byte? text with
  | some byte => d.push number byte
  | none => d.warn (.illegalToken number (String.ofList text))

def tokens (text : List Char) : List (List Char) :=
  ((Text.split (· = ',') text).map Text.trim).filter (· ≠ [])

def data (d : Decoder) (number : Nat) (text : List Char) : Decoder :=
  if d.inside = .memory ∨ d.inside = .vram then
    (tokens text).foldl (token number) d
  else
    d.warn (.byteOutsideSection number)

def trimmed (d : Decoder) (number : Nat) (text : List Char) : Decoder :=
  if text = [] ∨ text.head? = some '#' then
    d
  else if text = "FILENAME".toList then
    { d.enter number .filename with expectsName := true }
  else if text = "MEMORY".toList then
    d.enter number .memory
  else if text = "VRAM".toList then
    d.enter number .vram
  else
    d.data number text

def dropReturn (text : List Char) : List Char :=
  if text.getLast? = some '\r' then text.dropLast else text

def line (d : Decoder) (text : List Char) (number : Nat) : Decoder :=
  let text := dropReturn text
  if d.expectsName then
    { d with expectsName := false, filename := some text }
  else
    d.trimmed number (Text.trim text)

def ofLines (lines : List (List Char)) : Decoder :=
  (lines.zipIdx 1).foldl (fun d (text, number) => line d text number) {}

def finish (d : Decoder) : Decoder :=
  let named := if d.expectsName then { d with filename := some [] } else d
  if d.inside.mayPrecede .stop then
    named
  else
    named.warn (.outOfOrderSection 0 .stop d.inside)

def image (d : Decoder) : Image where
  filename := (d.filename.filter (· ≠ [])).map String.ofList
  memory := .ofBytes d.memory.bytes.reverse
  videoMemory := .ofBytes d.vram.bytes.reverse

end Decoder

structure Decoding where
  image : Image
  warnings : List Warning
deriving DecidableEq

def decodeChars (text : List Char) : Decoding :=
  let last := (Decoder.ofLines (Text.lines text)).finish
  ⟨last.image, last.warnings.reverse⟩

def decode (text : String) : Decoding :=
  decodeChars text.toList

def Decoding.log (d : Decoding) : List Log.Record :=
  d.warnings.map fun warning => ⟨.warn, warning.message⟩

end LongForm
end ByteMachine
