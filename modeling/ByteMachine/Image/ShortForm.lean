import ByteMachine.Image
import ByteMachine.Image.Payload
import ByteMachine.Log
import ByteMachine.Text.Percent
import ByteMachine.Text.Split

/-!
This module contains the short form of an image: a query `fn=<name>&p=<payload>`. The name is
percent-coded. The video memory is not part of it.
-/

namespace ByteMachine
namespace ShortForm

def encodeChars (image : Image) : List Char :=
  let payload := 'p' :: '=' :: Payload.encode image.memory.toList
  match image.name? with
  | some name => "fn=".toList ++ Percent.encode name.toList ++ '&' :: payload
  | none => payload

def encode (image : Image) : String :=
  String.ofList (encodeChars image)

structure Parameters where
  payload : Option (List Char) := none
  filename : Option String := none
  /-- The other keys, the latest first. -/
  ignored : List (List Char) := []
  /-- A name could not be decoded; what comes after it is not looked at. -/
  failed : Bool := false
deriving DecidableEq

namespace Parameters

def read (p : Parameters) (parameter : List Char) : Parameters :=
  if p.failed then
    p
  else
    let (key, value) := Text.cut '=' parameter
    let value := value.getD []
    if key = ['p'] then
      { p with payload := some value }
    else if key = ['f', 'n'] then
      match Percent.decode value with
      | some name => { p with filename := some name }
      | none => { p with failed := true }
    else
      { p with ignored := key :: p.ignored }

def image? (p : Parameters) : Option Image := do
  if p.failed then none
  let bytes ← Payload.decode (← p.payload)
  return { Image.ofProgram bytes with filename := p.filename.filter (· ≠ "") }

end Parameters

def parameters (query : List Char) : Parameters :=
  let query := if query.head? = some '?' then query.tail else query
  (Text.words (· = '&') query).foldl Parameters.read {}

/--
Reads a short form. The last of several payloads counts, and the last of several names.
-/
def decode (query : String) : Option Image :=
  (parameters query.toList).image?

def log (query : String) : List Log.Record :=
  (parameters query.toList).ignored.reverse.map fun key =>
    ⟨.debug, "ignoring query parameter `" ++ String.ofList key ++ "`"⟩

end ShortForm
end ByteMachine
